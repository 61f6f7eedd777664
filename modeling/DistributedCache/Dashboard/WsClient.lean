import DistributedCache.Bytes
import DistributedCache.Lib.Pool
import Mathlib.Algebra.Ring.Nat
import Mathlib.Data.List.Perm.Subperm

/-! `createClusterSocket` of the dashboard.  The variables of its closure are the shared state, and
the functions that are running, innermost first, are the local state of the one JavaScript thread.
A step runs the code up to the next point where other code can run: a callback of the caller, which
may call `close()`, and `ws.close()`, which may dispatch events of `ws` before it returns.  Between
two tasks any event of any socket, any pending timer, or `close()` may come next. -/

namespace DistributedCache.Dashboard

open Lib

inductive SocketStatus
  | connected
  | connecting
  | reconnecting
  | disconnected
  deriving DecidableEq

/-- The callback of a pending timer. -/
inductive Timer
  | reconnect
  | heartbeat (ws : Nat)
  deriving DecidableEq

/-- The variables of the closure, the pending timers, and the numbers of the next `WebSocket` and
the next timer. -/
structure ClusterSocket where
  socket : Option Nat
  reconnectTimer : Option Nat
  heartbeatTimer : Option Nat
  closed : Bool
  backoffMs : Nat
  timers : List (Nat × Timer)
  nextSocket : Nat
  nextTimer : Nat

/-- `event.data` of a message. -/
inductive MessageData
  | text (data : Bytes)
  | binary

inductive SocketEvent
  | opened
  | message (data : MessageData)
  | closed
  | error

/-- What is left to run of a function that has called other code. -/
inductive Frame
  /-- `onStatusChange` or `onEvent` is running. -/
  | callback
  /-- `ws.close()` is running. -/
  | closing (ws : Nat)
  /-- `connect`, from `new WebSocket(url)` on, in the callback of `timer`. -/
  | construct (timer : Nat)
  /-- The handler of an open event, from `scheduleHeartbeat(ws)` on. -/
  | heartbeat (ws : Nat)
  /-- The handler of a close event, from `scheduleReconnect()` on. -/
  | reconnect (ws : Nat)
  /-- `close()`, from `updateStatus("disconnected")` on. -/
  | disconnect
  deriving DecidableEq

/-- What runs next. -/
inductive Task
  | event (ws : Nat) (event : SocketEvent)
  /-- A timer fires.  `isOpen` tells if the socket of a heartbeat is in the state `OPEN`. -/
  | fire (timer : Nat) (isOpen : Bool)
  /-- The caller calls `close()`. -/
  | close
  /-- The innermost running function goes on. -/
  | resume

/-- What a step shows. -/
inductive Effect (ε : Type)
  | status (status : SocketStatus)
  | delivered (event : ε)
  | opened (ws : Nat)
  | closes (ws : Nat)
  | fired (timer : Nat)
  | constructed (timer : Nat)
  | scheduled (delayMs : Nat)
  | closeCalled

def maxBackoffMs : Nat := 30000

namespace ClusterSocket

/-- `clearTimeout`. -/
def clearTimeout (c : ClusterSocket) (timer : Nat) : ClusterSocket :=
  { c with timers := c.timers.filter fun t => t.1 ≠ timer }

/-- `clearTimeout`, if the variable holds a timer. -/
def clearIfSet (c : ClusterSocket) : Option Nat → ClusterSocket
  | some timer => c.clearTimeout timer
  | none => c

/-- `setTimeout`: the timer is `c.nextTimer`. -/
def setTimeout (c : ClusterSocket) (timer : Timer) : ClusterSocket :=
  { c with timers := (c.nextTimer, timer) :: c.timers, nextTimer := c.nextTimer + 1 }

def clearTimers (c : ClusterSocket) : ClusterSocket :=
  { (c.clearIfSet c.reconnectTimer).clearIfSet c.heartbeatTimer with
    reconnectTimer := none
    heartbeatTimer := none }

def scheduleHeartbeat (c : ClusterSocket) (ws : Nat) : ClusterSocket :=
  { (c.clearIfSet c.heartbeatTimer).setTimeout (.heartbeat ws) with
    heartbeatTimer := some c.nextTimer }

/-- `new WebSocket(url)` and `socket = ws`. -/
def construct (c : ClusterSocket) : ClusterSocket :=
  { c with socket := some c.nextSocket, nextSocket := c.nextSocket + 1 }

end ClusterSocket

/-- What a piece of code leaves: the variables, the functions that it has started with the code that
runs after them, and its effects. -/
structure Outcome (ε : Type) where
  client : ClusterSocket
  started : List Frame
  effects : List (Effect ε)

namespace ClusterSocket

variable {ε : Type}

def scheduleReconnect (c : ClusterSocket) : Outcome ε :=
  if c.closed then ⟨c, [], []⟩
  else
    ⟨{ (c.clearIfSet c.reconnectTimer).setTimeout .reconnect with
        reconnectTimer := some c.nextTimer
        backoffMs := min maxBackoffMs (c.backoffMs * 2) }, [], [.scheduled c.backoffMs]⟩

/-- The handler of an event of `ws`.  `parse` stands for `JSON.parse` and `parseClusterEvent`. -/
def handle (parse : Bytes → Option ε) (c : ClusterSocket) (ws : Nat) (event : SocketEvent) :
    Outcome ε :=
  if c.socket ≠ some ws then ⟨c, [], []⟩
  else match event with
    | .opened =>
      ⟨{ c with backoffMs := 1000 }, [.callback, .heartbeat ws], [.opened ws, .status .connected]⟩
    | .message .binary => ⟨c.scheduleHeartbeat ws, [], []⟩
    | .message (.text data) =>
      match parse data with
      | some event => ⟨c.scheduleHeartbeat ws, [.callback], [.delivered event]⟩
      | none => ⟨c.scheduleHeartbeat ws, [], []⟩
    | .closed =>
      if c.closed then ⟨c.clearTimers, [.callback], [.status .disconnected]⟩
      else ⟨c.clearTimers, [.callback, .reconnect ws], [.status .reconnecting]⟩
    | .error => ⟨c, [.closing ws], [.closes ws]⟩

/-- The callback of timer `id`, which is no longer pending. -/
def fire (c : ClusterSocket) (id : Nat) (isOpen : Bool) : Timer → Outcome ε
  | .reconnect =>
    if c.closed then ⟨c.clearTimeout id, [], [.fired id]⟩
    else ⟨c.clearTimeout id, [.callback, .construct id], [.fired id, .status .connecting]⟩
  | .heartbeat ws =>
    if c.socket ≠ some ws then ⟨c.clearTimeout id, [], []⟩
    else if isOpen then ⟨c.clearTimeout id, [.closing ws], [.closes ws]⟩
    else ⟨c.clearTimeout id, [], []⟩

/-- `close()`. -/
def close (c : ClusterSocket) : Outcome ε :=
  match c.socket with
  | some ws =>
    ⟨{ c with closed := true }.clearTimers, [.closing ws, .disconnect], [.closeCalled, .closes ws]⟩
  | none => ⟨{ c with closed := true }.clearTimers, [.disconnect], [.closeCalled]⟩

/-- What is left to run of a function. -/
def resume (c : ClusterSocket) : Frame → Outcome ε
  | .callback | .closing _ => ⟨c, [], []⟩
  | .construct timer => ⟨c.construct, [], [.constructed timer]⟩
  | .heartbeat ws => ⟨c.scheduleHeartbeat ws, [], []⟩
  | .reconnect _ => c.scheduleReconnect
  | .disconnect => ⟨c, [.callback], [.status .disconnected]⟩

/-- The code that runs next, and the functions that wait for it. -/
def next (parse : Bytes → Option ε) (c : ClusterSocket) :
    List Frame → Task → Option (Outcome ε × List Frame)
  | [], .event ws event =>
    if ws < c.nextSocket then some (c.handle parse ws event, []) else none
  | .closing ws' :: below, .event ws event =>
    if ws = ws' then some (c.handle parse ws event, .closing ws' :: below) else none
  | [], .fire id isOpen => (c.timers.lookup id).map fun timer => (c.fire id isOpen timer, [])
  | [], .close => some (c.close, [])
  | .callback :: below, .close => some (c.close, .callback :: below)
  | frame :: below, .resume => some (c.resume frame, below)
  | _, _ => none

/-- The variables after the first `connect()`. -/
def initial : ClusterSocket :=
  construct
    { socket := none
      reconnectTimer := none
      heartbeatTimer := none
      closed := false
      backoffMs := 1000
      timers := []
      nextSocket := 0
      nextTimer := 1 }

end ClusterSocket

variable {ε : Type}

/-- The one thread of the page. -/
def page (parse : Bytes → Option ε) :
    Program Unit ClusterSocket (List Frame) Task (List (Effect ε)) where
  advance _ c frames task :=
    (c.next parse frames task).map fun r =>
      (r.1.client, r.1.started ++ r.2, r.1.effects)

/-- The page when `createClusterSocket` has returned. -/
def pageStart : Pool Unit ClusterSocket (List Frame) := ⟨ClusterSocket.initial, fun _ => []⟩

namespace ClusterSocket

/-- The code that a step runs, and the functions that wait for it. -/
inductive Runs (parse : Bytes → Option ε) (c : ClusterSocket) :
    List Frame → Task → Outcome ε → List Frame → Prop
  | superseded {frames : List Frame} (ws : Nat) (event : SocketEvent) : c.socket ≠ some ws →
      Runs parse c frames (.event ws event) ⟨c, [], []⟩ frames
  | opened {frames : List Frame} (ws : Nat) : c.socket = some ws →
      Runs parse c frames (.event ws .opened)
        ⟨{ c with backoffMs := 1000 }, [.callback, .heartbeat ws],
          [.opened ws, .status .connected]⟩ frames
  | ignored {frames : List Frame} (ws : Nat) (data : MessageData) : c.socket = some ws →
      Runs parse c frames (.event ws (.message data)) ⟨c.scheduleHeartbeat ws, [], []⟩ frames
  | delivered {frames : List Frame} (ws : Nat) (data : MessageData) (event : ε) :
      c.socket = some ws →
      Runs parse c frames (.event ws (.message data))
        ⟨c.scheduleHeartbeat ws, [.callback], [.delivered event]⟩ frames
  | closedLast {frames : List Frame} (ws : Nat) : c.socket = some ws → c.closed = true →
      Runs parse c frames (.event ws .closed)
        ⟨c.clearTimers, [.callback], [.status .disconnected]⟩ frames
  | closed {frames : List Frame} (ws : Nat) : c.socket = some ws → c.closed = false →
      Runs parse c frames (.event ws .closed)
        ⟨c.clearTimers, [.callback, .reconnect ws], [.status .reconnecting]⟩ frames
  | error {frames : List Frame} (ws : Nat) : c.socket = some ws →
      Runs parse c frames (.event ws .error) ⟨c, [.closing ws], [.closes ws]⟩ frames
  | reconnectLast (id : Nat) (isOpen : Bool) : (id, .reconnect) ∈ c.timers → c.closed = true →
      Runs parse c [] (.fire id isOpen) ⟨c.clearTimeout id, [], [.fired id]⟩ []
  | reconnect (id : Nat) (isOpen : Bool) : (id, .reconnect) ∈ c.timers → c.closed = false →
      Runs parse c [] (.fire id isOpen)
        ⟨c.clearTimeout id, [.callback, .construct id], [.fired id, .status .connecting]⟩ []
  | beat (id : Nat) (isOpen : Bool) (ws : Nat) : (id, .heartbeat ws) ∈ c.timers →
      Runs parse c [] (.fire id isOpen) ⟨c.clearTimeout id, [], []⟩ []
  | stale (id : Nat) (isOpen : Bool) (ws : Nat) : (id, .heartbeat ws) ∈ c.timers →
      c.socket = some ws →
      Runs parse c [] (.fire id isOpen) ⟨c.clearTimeout id, [.closing ws], [.closes ws]⟩ []
  | close {frames : List Frame} (ws : Nat) : c.socket = some ws →
      Runs parse c frames .close
        ⟨{ c.clearTimers with closed := true }, [.closing ws, .disconnect],
          [.closeCalled, .closes ws]⟩ frames
  | closeNone {frames : List Frame} : c.socket = none →
      Runs parse c frames .close
        ⟨{ c.clearTimers with closed := true }, [.disconnect], [.closeCalled]⟩ frames
  | returned {below : List Frame} : Runs parse c (.callback :: below) .resume ⟨c, [], []⟩ below
  | closeReturned {below : List Frame} (ws : Nat) :
      Runs parse c (.closing ws :: below) .resume ⟨c, [], []⟩ below
  | construct {below : List Frame} (timer : Nat) :
      Runs parse c (.construct timer :: below) .resume ⟨c.construct, [], [.constructed timer]⟩ below
  | heartbeat {below : List Frame} (ws : Nat) :
      Runs parse c (.heartbeat ws :: below) .resume ⟨c.scheduleHeartbeat ws, [], []⟩ below
  | stopped {below : List Frame} (ws : Nat) : c.closed = true →
      Runs parse c (.reconnect ws :: below) .resume ⟨c, [], []⟩ below
  | scheduled {below : List Frame} (ws : Nat) : c.closed = false →
      Runs parse c (.reconnect ws :: below) .resume
        ⟨{ (c.clearIfSet c.reconnectTimer).setTimeout .reconnect with
            reconnectTimer := some c.nextTimer
            backoffMs := min maxBackoffMs (c.backoffMs * 2) }, [], [.scheduled c.backoffMs]⟩ below
  | disconnect {below : List Frame} :
      Runs parse c (.disconnect :: below) .resume ⟨c, [.callback], [.status .disconnected]⟩ below

theorem clearTimers_closed (c : ClusterSocket) :
    ({ c with closed := true } : ClusterSocket).clearTimers =
      { c.clearTimers with closed := true } := by
  unfold clearTimers
  cases c.reconnectTimer <;> cases c.heartbeatTimer <;> rfl

section

variable {parse : Bytes → Option ε} {c : ClusterSocket} {frames below : List Frame} {task : Task}
  {outcome : Outcome ε}

theorem handle_runs (ws : Nat) (event : SocketEvent) :
    Runs parse c frames (.event ws event) (c.handle parse ws event) frames := by
  unfold handle
  split
  · rename_i superseded
    exact .superseded ws event superseded
  · rename_i current
    have current : c.socket = some ws := by simpa using current
    split
    · exact .opened ws current
    · exact .ignored ws _ current
    · split
      · exact .delivered ws _ _ current
      · exact .ignored ws _ current
    · cases done : c.closed
      · exact .closed ws current done
      · exact .closedLast ws current done
    · exact .error ws current

theorem fire_runs {id : Nat} {timer : Timer} (pending : (id, timer) ∈ c.timers) (isOpen : Bool) :
    Runs parse c [] (.fire id isOpen) (c.fire id isOpen timer) [] := by
  cases timer with
  | reconnect =>
    unfold fire
    cases done : c.closed
    · exact .reconnect id isOpen pending done
    · exact .reconnectLast id isOpen pending done
  | heartbeat ws =>
    simp only [fire]
    split
    · exact .beat id isOpen ws pending
    · rename_i current
      split
      · exact .stale id isOpen ws pending (by simpa using current)
      · exact .beat id isOpen ws pending

theorem close_runs : Runs parse c frames .close c.close frames := by
  unfold close
  rw [clearTimers_closed]
  split
  · rename_i ws current
    exact .close ws current
  · rename_i noSocket
    exact .closeNone noSocket

theorem resume_runs (frame : Frame) :
    Runs parse c (frame :: below) .resume (c.resume frame) below := by
  cases frame with
  | callback => exact .returned
  | closing ws => exact .closeReturned ws
  | construct timer => exact .construct timer
  | heartbeat ws => exact .heartbeat ws
  | reconnect ws =>
    unfold resume scheduleReconnect
    cases done : c.closed
    · exact .scheduled ws done
    · exact .stopped ws done
  | disconnect => exact .disconnect

theorem next_runs (moved : c.next parse frames task = some (outcome, below)) :
    Runs parse c frames task outcome below := by
  unfold next at moved
  split at moved
  · split at moved
    · cases moved
      exact handle_runs _ _
    · cases moved
  · split at moved
    · cases moved
      exact handle_runs _ _
    · cases moved
  · obtain ⟨timer, found, same⟩ := Option.map_eq_some_iff.mp moved
    obtain ⟨front, back, split, -⟩ := List.lookup_eq_some_iff.mp found
    cases same
    exact fire_runs (by simp [split]) _
  · cases moved
    exact close_runs
  · cases moved
    exact close_runs
  · cases moved
    exact resume_runs _
  · cases moved

end

/-! ### The timers -/

/-- The pending timers have different numbers, and the only one that may be for a reconnect is the
one that `reconnectTimer` holds, while `close()` has not been called. -/
structure Timed (c : ClusterSocket) : Prop where
  ids : (c.timers.map Prod.fst).Nodup
  fresh : ∀ t ∈ c.timers, t.1 < c.nextTimer
  reconnect : ∀ id, (id, .reconnect) ∈ c.timers → c.reconnectTimer = some id ∧ c.closed = false

theorem Timed.atMostOne {c : ClusterSocket} (timed : c.Timed) :
    (c.timers.filter fun t => t.2 = .reconnect).length ≤ 1 := by
  have ids : ((c.timers.filter fun t => t.2 = .reconnect).map Prod.fst).Nodup :=
    timed.ids.sublist (List.filter_sublist.map _)
  have held : (c.timers.filter fun t => t.2 = .reconnect).map Prod.fst ⊆
      c.reconnectTimer.toList := by
    intro id member
    obtain ⟨⟨id, timer⟩, pending, rfl⟩ := List.mem_map.mp member
    obtain ⟨pending, kind⟩ := List.mem_filter.mp pending
    obtain rfl : timer = .reconnect := by simpa using kind
    simp [(timed.reconnect id pending).1]
  have short : c.reconnectTimer.toList.length ≤ 1 := by
    cases c.reconnectTimer <;> simp
  have := (List.subperm_of_subset ids held).length_le
  simp only [List.length_map] at this
  omega

theorem Timed.clearTimeout {c : ClusterSocket} (timed : c.Timed) (id : Nat) :
    (c.clearTimeout id).Timed where
  ids := timed.ids.sublist (List.filter_sublist.map _)
  fresh t member := timed.fresh t (List.mem_filter.mp member).1
  reconnect id member := timed.reconnect id (List.mem_filter.mp member).1

theorem Timed.clearIfSet {c : ClusterSocket} (timed : c.Timed) (timer : Option Nat) :
    (c.clearIfSet timer).Timed := by
  cases timer with
  | none => exact timed
  | some id => exact timed.clearTimeout id

theorem mem_clearIfSet {c : ClusterSocket} {timer : Option Nat} {t : Nat × Timer}
    (member : t ∈ (c.clearIfSet timer).timers) : t ∈ c.timers ∧ timer ≠ some t.1 := by
  cases timer with
  | none => exact ⟨member, by simp⟩
  | some id =>
    obtain ⟨member, other⟩ := List.mem_filter.mp member
    refine ⟨member, fun same => ?_⟩
    cases same
    simp at other

/-- After `clearTimers` no reconnect is pending. -/
theorem Timed.cleared {c : ClusterSocket} (timed : c.Timed) (id : Nat) :
    (id, .reconnect) ∉ c.clearTimers.timers := by
  intro member
  have first := (mem_clearIfSet (c := c.clearIfSet c.reconnectTimer) member).1
  obtain ⟨pending, other⟩ := mem_clearIfSet first
  exact other (timed.reconnect id pending).1

@[simp] theorem clearIfSet_nextTimer (c : ClusterSocket) (timer : Option Nat) :
    (c.clearIfSet timer).nextTimer = c.nextTimer := by
  cases timer <;> rfl

@[simp] theorem clearIfSet_closed (c : ClusterSocket) (timer : Option Nat) :
    (c.clearIfSet timer).closed = c.closed := by
  cases timer <;> rfl

@[simp] theorem clearIfSet_socket (c : ClusterSocket) (timer : Option Nat) :
    (c.clearIfSet timer).socket = c.socket := by
  cases timer <;> rfl

@[simp] theorem clearIfSet_nextSocket (c : ClusterSocket) (timer : Option Nat) :
    (c.clearIfSet timer).nextSocket = c.nextSocket := by
  cases timer <;> rfl

@[simp] theorem clearIfSet_backoffMs (c : ClusterSocket) (timer : Option Nat) :
    (c.clearIfSet timer).backoffMs = c.backoffMs := by
  cases timer <;> rfl

@[simp] theorem clearIfSet_reconnectTimer (c : ClusterSocket) (timer : Option Nat) :
    (c.clearIfSet timer).reconnectTimer = c.reconnectTimer := by
  cases timer <;> rfl

theorem Timed.clearTimers {c : ClusterSocket} (timed : c.Timed) : c.clearTimers.Timed where
  ids := ((timed.clearIfSet _).clearIfSet _).ids
  fresh := ((timed.clearIfSet c.reconnectTimer).clearIfSet c.heartbeatTimer).fresh
  reconnect id member := absurd member (timed.cleared id)

/-- A timer that `setTimeout` adds has a number of its own. -/
theorem Timed.setTimeout_ids {c : ClusterSocket} (timed : c.Timed) (timer : Timer) :
    ((c.setTimeout timer).timers.map Prod.fst).Nodup ∧
      ∀ t ∈ (c.setTimeout timer).timers, t.1 < (c.setTimeout timer).nextTimer := by
  refine ⟨?_, ?_⟩
  · rw [setTimeout, List.map_cons, List.nodup_cons]
    refine ⟨fun member => ?_, timed.ids⟩
    obtain ⟨t, pending, same⟩ := List.mem_map.mp member
    have := timed.fresh t pending
    simp only at same
    omega
  · intro t member
    rcases List.mem_cons.mp member with rfl | old
    · exact Nat.lt_succ_self _
    · have := timed.fresh t old
      show t.1 < c.nextTimer + 1
      omega

theorem Timed.scheduleHeartbeat {c : ClusterSocket} (timed : c.Timed) (ws : Nat) :
    (c.scheduleHeartbeat ws).Timed := by
  have cleared := timed.clearIfSet c.heartbeatTimer
  obtain ⟨ids, fresh⟩ := cleared.setTimeout_ids (.heartbeat ws)
  refine ⟨ids, fresh, fun id member => ?_⟩
  rcases List.mem_cons.mp member with new | old
  · cases new
  · simpa [ClusterSocket.scheduleHeartbeat, setTimeout] using cleared.reconnect id old

theorem Timed.scheduleReconnect {c : ClusterSocket} (timed : c.Timed) (stillOpen : c.closed = false)
    (backoffMs : Nat) :
    Timed { (c.clearIfSet c.reconnectTimer).setTimeout .reconnect with
      reconnectTimer := some c.nextTimer
      backoffMs := backoffMs } := by
  have cleared := timed.clearIfSet c.reconnectTimer
  obtain ⟨ids, fresh⟩ := cleared.setTimeout_ids .reconnect
  refine ⟨ids, fresh, fun id member => ?_⟩
  rcases List.mem_cons.mp member with new | old
  · cases new
    simpa [setTimeout] using stillOpen
  · obtain ⟨pending, other⟩ := mem_clearIfSet old
    exact absurd (timed.reconnect id pending).1 other

theorem Timed.runs {parse : Bytes → Option ε} {c : ClusterSocket} {frames below : List Frame}
    {task : Task} {outcome : Outcome ε} (timed : c.Timed)
    (ran : Runs parse c frames task outcome below) : outcome.client.Timed := by
  cases ran with
  | superseded | error | returned | closeReturned | stopped | disconnect => exact timed
  | opened | construct => exact ⟨timed.ids, timed.fresh, timed.reconnect⟩
  | ignored ws | delivered ws | heartbeat ws => exact timed.scheduleHeartbeat ws
  | closedLast | closed => exact timed.clearTimers
  | reconnectLast id | reconnect id | beat id | stale id => exact timed.clearTimeout id
  | close | closeNone =>
    refine ⟨timed.clearTimers.ids, timed.clearTimers.fresh, fun id member => ?_⟩
    exact absurd member (timed.cleared id)
  | scheduled ws stillOpen => exact timed.scheduleReconnect stillOpen _

@[simp] theorem clearTimers_socket (c : ClusterSocket) : c.clearTimers.socket = c.socket := by
  simp [clearTimers]

@[simp] theorem scheduleHeartbeat_socket (c : ClusterSocket) (ws : Nat) :
    (c.scheduleHeartbeat ws).socket = c.socket := by
  simp [scheduleHeartbeat, setTimeout]

/-! ### The functions that are running -/

/-- A handler that waits is a handler of the current socket, and `connect` waits below all other
functions. -/
structure Stacked (c : ClusterSocket) (frames : List Frame) : Prop where
  current : ∀ ws, .heartbeat ws ∈ frames ∨ .reconnect ws ∈ frames → c.socket = some ws
  bottom : ∀ timer below, (.construct timer :: below) <:+ frames → below = []

theorem Stacked.below {c : ClusterSocket} {frame : Frame} {frames : List Frame}
    (stacked : c.Stacked (frame :: frames)) : c.Stacked frames where
  current ws waits := stacked.current ws (waits.imp (.tail _) (.tail _))
  bottom timer below suffix := stacked.bottom timer below (suffix.trans (List.suffix_cons ..))

/-- Starting a function above the others. -/
theorem Stacked.push {c : ClusterSocket} {frames : List Frame} (stacked : c.Stacked frames)
    (frame : Frame)
    (mine : ∀ ws, frame = .heartbeat ws ∨ frame = .reconnect ws → c.socket = some ws)
    (above : ∀ timer, frame = .construct timer → frames = []) : c.Stacked (frame :: frames) where
  current ws waits := by
    simp only [List.mem_cons] at waits
    rcases waits with (rfl | old) | (rfl | old)
    · exact mine ws (.inl rfl)
    · exact stacked.current ws (.inl old)
    · exact mine ws (.inr rfl)
    · exact stacked.current ws (.inr old)
  bottom timer below suffix := by
    rcases List.suffix_cons_iff.mp suffix with same | suffix
    · cases same
      exact above timer rfl
    · exact stacked.bottom timer below suffix

theorem Stacked.congr {c c' : ClusterSocket} {frames : List Frame} (stacked : c.Stacked frames)
    (same : c'.socket = c.socket) : c'.Stacked frames :=
  ⟨fun ws waits => same.trans (stacked.current ws waits), stacked.bottom⟩

theorem Stacked.runs {parse : Bytes → Option ε} {c : ClusterSocket} {frames below : List Frame}
    {task : Task} {outcome : Outcome ε} (stacked : c.Stacked frames)
    (ran : Runs parse c frames task outcome below) :
    outcome.client.Stacked (outcome.started ++ below) := by
  cases ran with
  | superseded => exact stacked
  | opened ws current =>
    refine ((stacked.push (.heartbeat ws) ?_ (by simp)).push .callback (by simp)
      (by simp)).congr rfl
    rintro ws' (same | same)
    · cases same
      exact current
    · cases same
  | ignored => exact stacked.congr (by simp)
  | delivered => exact (stacked.push .callback (by simp) (by simp)).congr (by simp)
  | closedLast => exact (stacked.push .callback (by simp) (by simp)).congr (by simp)
  | closed ws current =>
    refine ((stacked.push (.reconnect ws) ?_ (by simp)).push .callback (by simp)
      (by simp)).congr (by simp)
    rintro ws' (same | same)
    · cases same
    · cases same
      exact current
  | error ws => exact stacked.push (.closing ws) (by simp) (by simp)
  | reconnectLast | beat => exact stacked.congr rfl
  | reconnect id =>
    exact ((stacked.push (.construct id) (by simp) (by simp)).push .callback (by simp)
      (by simp)).congr rfl
  | stale id isOpen ws => exact (stacked.push (.closing ws) (by simp) (by simp)).congr rfl
  | close ws =>
    exact ((stacked.push .disconnect (by simp) (by simp)).push (.closing ws) (by simp)
      (by simp)).congr (by simp)
  | closeNone => exact (stacked.push .disconnect (by simp) (by simp)).congr (by simp)
  | returned | closeReturned | stopped => exact stacked.below
  | construct timer =>
    obtain rfl := stacked.bottom timer below (List.suffix_refl _)
    exact ⟨by simp, by simp⟩
  | heartbeat | scheduled => exact stacked.below.congr (by simp [setTimeout])
  | disconnect => exact stacked.below.push .callback (by simp) (by simp)

end ClusterSocket

/-! ### What the effects so far say -/

/-- The reconnect timers that have fired, in order. -/
def firings (log : List (Effect ε)) : List Nat :=
  log.filterMap fun
    | .fired timer => some timer
    | _ => none

/-- The reconnect timers in whose callback a `WebSocket` was constructed, in order. -/
def constructions (log : List (Effect ε)) : List Nat :=
  log.filterMap fun
    | .constructed timer => some timer
    | _ => none

/-- The reconnect timers in whose callback `connect` waits. -/
def waiting (frames : List Frame) : List Nat :=
  frames.filterMap fun
    | .construct timer => some timer
    | _ => none

/-- The number of reconnects since the last open event, after one more effect. -/
def recount (k : Nat) : Effect ε → Nat
  | .scheduled _ => k + 1
  | .opened _ => 0
  | _ => k

/-- The delay of the reconnect after `k` reconnects since the last open event. -/
def backoff (k : Nat) : Nat := min maxBackoffMs (1000 * 2 ^ k)

/-- The delays of the reconnects, of which `k` were scheduled since the last open event. -/
def Delayed : Nat → List (Effect ε) → Prop
  | _, [] => True
  | k, effect :: rest =>
    (∀ delayMs, effect = .scheduled delayMs → delayMs = backoff k) ∧ Delayed (recount k effect) rest

/-- If the first effect is a call of `close()`, the second does not construct a `WebSocket`. -/
def Shuts (first second : Effect ε) : Prop :=
  first = .closeCalled → ∀ timer, second ≠ .constructed timer

theorem firings_append (log effects : List (Effect ε)) :
    firings (log ++ effects) = firings log ++ firings effects := List.filterMap_append ..

theorem constructions_append (log effects : List (Effect ε)) :
    constructions (log ++ effects) = constructions log ++ constructions effects :=
  List.filterMap_append ..

theorem delayed_append (k : Nat) (log effects : List (Effect ε)) :
    Delayed k (log ++ effects) ↔ Delayed k log ∧ Delayed (log.foldl recount k) effects := by
  induction log generalizing k with
  | nil => simp [Delayed]
  | cons effect log ih => simp [Delayed, ih, and_assoc]

theorem backoff_succ (k : Nat) : min maxBackoffMs (backoff k * 2) = backoff (k + 1) := by
  unfold backoff maxBackoffMs
  rw [Nat.pow_succ]
  omega

namespace ClusterSocket

section

variable {parse : Bytes → Option ε} {c : ClusterSocket} {frames below : List Frame} {task : Task}
  {outcome : Outcome ε}

theorem Runs.ignores {ws : Nat} {event : SocketEvent}
    (ran : Runs parse c frames (.event ws event) outcome below) (superseded : c.socket ≠ some ws) :
    outcome = ⟨c, [], []⟩ ∧ below = frames := by
  cases ran with
  | superseded => exact ⟨rfl, rfl⟩
  | opened _ current | ignored _ _ current | delivered _ _ _ current | closedLast _ current
  | closed _ current | error _ current => exact absurd current superseded

theorem Runs.firings (ran : Runs parse c frames task outcome below) :
    firings outcome.effects = [] ∨ ∃ id, firings outcome.effects = [id] ∧
      (id, .reconnect) ∈ c.timers ∧ outcome.client = c.clearTimeout id := by
  cases ran with
  | reconnectLast id _ pending | reconnect id _ pending =>
    exact .inr ⟨id, rfl, pending, rfl⟩
  | _ => exact .inl rfl

/-- A `WebSocket` is constructed, or waits to be constructed, only for a timer that has fired. -/
theorem Runs.constructions (ran : Runs parse c frames task outcome below) :
    (constructions outcome.effects ++ waiting (outcome.started ++ below)).Sublist
      (waiting frames ++ Dashboard.firings outcome.effects) := by
  cases ran with
  | reconnectLast id => exact List.nil_sublist _
  | _ => simp [Dashboard.constructions, waiting, Dashboard.firings]

theorem Runs.nextSocket (ran : Runs parse c frames task outcome below) :
    outcome.client.nextSocket =
      c.nextSocket + (Dashboard.constructions outcome.effects).length := by
  cases ran <;>
    simp [Dashboard.constructions, ClusterSocket.construct, clearTimers, clearTimeout,
      scheduleHeartbeat, setTimeout]

/-- A step adds no pending timer but with a new number. -/
theorem Runs.timers (ran : Runs parse c frames task outcome below) :
    c.nextTimer ≤ outcome.client.nextTimer ∧
      ∀ t ∈ outcome.client.timers, t ∈ c.timers ∨ c.nextTimer ≤ t.1 := by
  cases ran with
  | ignored ws | delivered ws | heartbeat ws =>
    refine ⟨by simp [scheduleHeartbeat, setTimeout], fun t member => ?_⟩
    rcases List.mem_cons.mp member with rfl | old
    · exact .inr (by simp)
    · exact .inl (mem_clearIfSet old).1
  | scheduled ws =>
    refine ⟨by simp [setTimeout], fun t member => ?_⟩
    rcases List.mem_cons.mp member with rfl | old
    · exact .inr (by simp)
    · exact .inl (mem_clearIfSet old).1
  | closedLast | closed | close | closeNone =>
    refine ⟨by simp [clearTimers], fun t member => .inl ?_⟩
    exact (mem_clearIfSet (mem_clearIfSet (c := c.clearIfSet c.reconnectTimer) member).1).1
  | reconnectLast | reconnect | beat | stale =>
    exact ⟨Nat.le_refl _, fun t member => .inl (List.mem_filter.mp member).1⟩
  | _ => exact ⟨Nat.le_refl _, fun t member => .inl member⟩

theorem Runs.backoff {k : Nat} (ran : Runs parse c frames task outcome below)
    (before : c.backoffMs = backoff k) :
    outcome.client.backoffMs = Dashboard.backoff (outcome.effects.foldl recount k) ∧
      Delayed k outcome.effects := by
  cases ran with
  | opened => exact ⟨rfl, by simp [Delayed]⟩
  | scheduled ws =>
    refine ⟨?_, ?_⟩
    · rw [before, backoff_succ]
      rfl
    · rw [before]
      simp [Delayed]
  | _ =>
    simp [Delayed, recount, ClusterSocket.construct, clearTimers, clearTimeout, scheduleHeartbeat,
      setTimeout, before]

/-- `close()` is the only code that sets `closed`. -/
theorem Runs.closed_iff (ran : Runs parse c frames task outcome below) :
    outcome.client.closed = true ↔ c.closed = true ∨ .closeCalled ∈ outcome.effects := by
  cases ran <;>
    simp [ClusterSocket.construct, clearTimers, clearTimeout, scheduleHeartbeat, setTimeout]

theorem Runs.closeCalled (ran : Runs parse c frames task outcome below)
    (called : .closeCalled ∈ outcome.effects) : task = .close := by
  cases ran with
  | close | closeNone => rfl
  | _ => simp at called

theorem Runs.shuts (ran : Runs parse c frames task outcome below) :
    outcome.effects.Pairwise Shuts := by
  cases ran <;> simp [Shuts]

/-- `connect` starts to wait only while `closed` is not set. -/
theorem Runs.waits {timer : Nat} (ran : Runs parse c frames task outcome below)
    (waits : .construct timer ∈ outcome.started ++ below) :
    .construct timer ∈ frames ∨ outcome.client.closed = false := by
  cases ran with
  | reconnect id isOpen pending stillOpen => exact .inr stillOpen
  | reconnectLast | beat | stale => simp at waits
  | construct => exact .inl (List.mem_cons_of_mem _ (by simpa using waits))
  | _ => exact .inl (by simpa using waits)

theorem Runs.constructed {timer : Nat} (ran : Runs parse c frames task outcome below)
    (constructs : .constructed timer ∈ outcome.effects) :
    .construct timer ∈ frames := by
  cases ran with
  | construct timer' =>
    obtain rfl : timer = timer' := by simpa using constructs
    simp
  | _ => simp at constructs

end

/-- What links the variables and the running functions to the effects so far. -/
structure Tracks (log : List (Effect ε)) (c : ClusterSocket) (frames : List Frame) : Prop where
  fired : (firings log).Nodup
  old : ∀ id ∈ firings log, id < c.nextTimer ∧ ∀ t ∈ c.timers, t.1 ≠ id
  constructed : (constructions log ++ waiting frames).Sublist (firings log)
  sockets : c.nextSocket = 1 + (constructions log).length
  backoffMs : c.backoffMs = backoff (log.foldl recount 0)
  delayed : Delayed 0 log

theorem Tracks.runs {parse : Bytes → Option ε} {log : List (Effect ε)} {c : ClusterSocket}
    {frames below : List Frame} {task : Task} {outcome : Outcome ε} (tracks : Tracks log c frames)
    (timed : c.Timed) (ran : Runs parse c frames task outcome below) :
    Tracks (log ++ outcome.effects) outcome.client (outcome.started ++ below) := by
  obtain ⟨later, timers⟩ := ran.timers
  have aged : ∀ id ∈ firings log,
      id < outcome.client.nextTimer ∧ ∀ t ∈ outcome.client.timers, t.1 ≠ id := by
    intro id member
    obtain ⟨low, other⟩ := tracks.old id member
    refine ⟨by omega, fun t pending => ?_⟩
    rcases timers t pending with kept | added
    · exact other t kept
    · omega
  obtain ⟨backoffMs, delayed⟩ := ran.backoff tracks.backoffMs
  refine ⟨?_, ?_, ?_, ?_, ?_, ?_⟩
  · rw [firings_append]
    rcases ran.firings with quiet | ⟨id, one, pending, -⟩
    · rw [quiet, List.append_nil]
      exact tracks.fired
    · rw [one, List.nodup_append]
      refine ⟨tracks.fired, by simp, fun a member b single => ?_⟩
      obtain rfl : b = id := by simpa using single
      exact fun same => (tracks.old a member).2 _ pending same.symm
  · intro id member
    rw [firings_append, List.mem_append] at member
    rcases member with old | new
    · exact aged id old
    · rcases ran.firings with quiet | ⟨id', one, pending, cleared⟩
      · rw [quiet] at new
        cases new
      · rw [one] at new
        obtain rfl : id = id' := by simpa using new
        rw [cleared]
        refine ⟨timed.fresh _ pending, fun t member => ?_⟩
        simpa using (List.mem_filter.mp member).2
  · rw [constructions_append, firings_append, List.append_assoc]
    calc (constructions log ++ (constructions outcome.effects ++
          waiting (outcome.started ++ below))).Sublist
          (constructions log ++ (waiting frames ++ firings outcome.effects)) :=
        (List.append_sublist_append_left _).mpr ran.constructions
      _ = constructions log ++ waiting frames ++ firings outcome.effects :=
        (List.append_assoc ..).symm
      List.Sublist _ (firings log ++ firings outcome.effects) :=
        (List.append_sublist_append_right _).mpr tracks.constructed
  · rw [ran.nextSocket, tracks.sockets, constructions_append, List.length_append]
    omega
  · rw [backoffMs, List.foldl_append]
  · exact (delayed_append _ _ _).mpr ⟨tracks.delayed, delayed⟩

/-- What `close()` leaves, if it is not called while `connect` waits. -/
structure Shut (log : List (Effect ε)) (c : ClusterSocket) (frames : List Frame) : Prop where
  closed : c.closed = true ↔ .closeCalled ∈ log
  waits : c.closed = true → ∀ timer, .construct timer ∉ frames
  quiet : log.Pairwise Shuts

theorem Shut.runs {parse : Bytes → Option ε} {log : List (Effect ε)} {c : ClusterSocket}
    {frames below : List Frame} {task : Task} {outcome : Outcome ε} (shut : Shut log c frames)
    (orderly : task = .close → ∀ timer, .construct timer ∉ frames)
    (ran : Runs parse c frames task outcome below) :
    Shut (log ++ outcome.effects) outcome.client (outcome.started ++ below) := by
  refine ⟨?_, ?_, ?_⟩
  · rw [ran.closed_iff, shut.closed, List.mem_append]
  · intro closed timer waits
    rcases ran.waits waits with old | stillOpen
    · rcases ran.closed_iff.mp closed with before | called
      · exact shut.waits before timer old
      · exact orderly (ran.closeCalled called) timer old
    · simp [closed] at stillOpen
  · refine List.pairwise_append.mpr ⟨shut.quiet, ran.shuts, ?_⟩
    rintro _ called effect member rfl timer rfl
    exact shut.waits (shut.closed.mpr called) timer (ran.constructed member)

end ClusterSocket

/-- The behaviour of the client after the effects `log`. -/
structure Behaves (parse : Bytes → Option ε) (log : List (Effect ε))
    (s : Pool Unit ClusterSocket (List Frame)) : Prop where
  /-- At most one reconnect timer is pending. -/
  oneReconnect : (s.shared.timers.filter fun t => t.2 = .reconnect).length ≤ 1
  /-- Each `WebSocket` after the first was constructed in the callback of a reconnect timer, and no
  two in the callback of the same one. -/
  byTimer : s.shared.nextSocket = 1 + (constructions log).length ∧
    (constructions log).Sublist (firings log) ∧ (firings log).Nodup
  /-- An event of a superseded socket changes nothing and has no effect, and none of its handlers
  has anything left to do. -/
  superseded : ∀ ws, s.shared.socket ≠ some ws →
    (∀ event t effects, (page parse).step s ((), .event ws event) = some (t, effects) →
      t.shared = s.shared ∧ t.thread () = s.thread () ∧ effects = []) ∧
    .heartbeat ws ∉ s.thread () ∧ .reconnect ws ∉ s.thread ()
  /-- The delay of each reconnect doubles since the last open event. -/
  delays : ∀ before delayMs after, log = before ++ .scheduled delayMs :: after →
    delayMs = min 30000 (1000 * 2 ^ before.foldl recount 0)
  /-- After `close()` no reconnect is pending. -/
  afterClose : .closeCalled ∈ log → ∀ t ∈ s.shared.timers, t.2 ≠ .reconnect
  /-- After `close()` no `WebSocket` is constructed. -/
  quiet : log.Pairwise Shuts

/-- The caller does not call `close()` while `connect` waits, which is in the callback for the
status `connecting` of a reconnect. -/
def Orderly (s : Pool Unit ClusterSocket (List Frame)) (l : Unit × Task) : Prop :=
  l.2 = .close → ∀ timer, .construct timer ∉ s.thread ()

theorem page_step {parse : Bytes → Option ε} {s t : Pool Unit ClusterSocket (List Frame)}
    {l : Unit × Task} {effects : List (Effect ε)}
    (moved : (page parse).step s l = some (t, effects)) :
    ∃ outcome below, s.shared.Runs parse (s.thread ()) l.2 outcome below ∧
      t.shared = outcome.client ∧ t.thread () = outcome.started ++ below ∧
      effects = outcome.effects := by
  obtain ⟨⟨⟩, task⟩ := l
  obtain ⟨client, frames, advanced, rfl⟩ := Program.step_eq_some.mp moved
  obtain ⟨⟨outcome, below⟩, next, same⟩ := Option.map_eq_some_iff.mp advanced
  cases same
  exact ⟨outcome, below, ClusterSocket.next_runs next, rfl, by simp, rfl⟩

/-- As long as the caller keeps to `Orderly`, the client behaves in every state that it reaches. -/
theorem orderly_behaves {parse : Bytes → Option ε} {tasks : List (Unit × Task)}
    {s : Pool Unit ClusterSocket (List Frame)} {effects : List (List (Effect ε))}
    (ran : Program.Guarded (page parse) Orderly pageStart tasks s effects) :
    Behaves parse effects.flatten s := by
  suffices h : s.shared.Timed ∧ s.shared.Stacked (s.thread ()) ∧
      ClusterSocket.Tracks effects.flatten s.shared (s.thread ()) ∧
      ClusterSocket.Shut effects.flatten s.shared (s.thread ()) by
    obtain ⟨timed, stacked, tracks, shut⟩ := h
    refine ⟨timed.atMostOne, ⟨tracks.sockets, ?_, tracks.fired⟩, ?_, ?_, ?_, shut.quiet⟩
    · exact (List.sublist_append_left _ _).trans tracks.constructed
    · intro ws superseded
      refine ⟨fun event t effects moved => ?_, fun waits => ?_, fun waits => ?_⟩
      · obtain ⟨outcome, below, runs, client, frames, rfl⟩ := page_step moved
        obtain ⟨rfl, rfl⟩ := runs.ignores superseded
        exact ⟨client, frames, rfl⟩
      · exact superseded (stacked.current ws (.inl waits))
      · exact superseded (stacked.current ws (.inr waits))
    · intro before delayMs after split
      have delayed := tracks.delayed
      rw [split, delayed_append] at delayed
      exact delayed.2.1 delayMs rfl
    · rintro called ⟨id, timer⟩ pending rfl
      have closed := shut.closed.mpr called
      simp [(timed.reconnect id pending).2] at closed
  refine Program.Guarded.induction (fun effects s => s.shared.Timed ∧
    s.shared.Stacked (s.thread ()) ∧
    ClusterSocket.Tracks effects.flatten s.shared (s.thread ()) ∧
    ClusterSocket.Shut effects.flatten s.shared (s.thread ())) ?_ ?_ ran
  · rintro log s l t e ⟨timed, stacked, tracks, shut⟩ orderly moved
    obtain ⟨outcome, below, runs, client, frames, rfl⟩ := page_step moved
    rw [client, frames, List.flatten_append, List.flatten_singleton]
    exact ⟨timed.runs runs, stacked.runs runs, tracks.runs timed runs, shut.runs orderly runs⟩
  · refine ⟨⟨by decide, by decide, by simp [pageStart, ClusterSocket.initial,
      ClusterSocket.construct]⟩, ⟨by simp [pageStart], by simp [pageStart]⟩, ?_, ?_⟩
    · exact ⟨.nil, by simp [firings],
        by simp [constructions, waiting, firings, pageStart], rfl, rfl,
        trivial⟩
    · exact ⟨by simp [pageStart, ClusterSocket.initial, ClusterSocket.construct],
        by simp [pageStart], .nil⟩

/-- A close event, its reconnect, and `close()` in the callback for the status `connecting`. -/
def closeWhileConnecting : List (Unit × Task) :=
  [((), .event 0 .closed), ((), .resume), ((), .resume), ((), .fire 1 false), ((), .close),
    ((), .resume), ((), .resume), ((), .resume), ((), .resume), ((), .resume)]

/-- The second `WebSocket` is constructed after `close()`. -/
theorem closeWhileConnecting_constructs : ∃ s effects,
    (page fun _ => (none : Option Unit)).run pageStart closeWhileConnecting = some (s, effects) ∧
      s.shared.closed = true ∧ s.shared.nextSocket = 2 ∧
      ¬Behaves (fun _ => none) effects.flatten s := by
  refine ⟨_, [[.status .reconnecting], [], [.scheduled 1000], [.fired 1, .status .connecting],
    [.closeCalled, .closes 0], [], [.status .disconnected], [], [], [.constructed 1]],
    rfl, rfl, rfl, fun behaves => ?_⟩
  have quiet := behaves.quiet
  simp [Shuts] at quiet

/-- The same events, with `close()` after the second `WebSocket`. -/
def closeWhenConnecting : List (Unit × Task) :=
  [((), .event 0 .closed), ((), .resume), ((), .resume), ((), .fire 1 false), ((), .resume),
    ((), .resume), ((), .close)]

theorem closeWhenConnecting_behaves : ∃ s effects,
    (page fun _ => (none : Option Unit)).run pageStart closeWhenConnecting = some (s, effects) ∧
      s.shared.closed = true ∧ Behaves (fun _ => none) effects.flatten s := by
  have ran : ∃ s effects, (page fun _ => (none : Option Unit)).run pageStart closeWhenConnecting =
      some (s, effects) ∧ s.shared.closed = true ∧
      Program.Guarded (page fun _ => (none : Option Unit)) Orderly pageStart closeWhenConnecting s
        effects := by
    refine ⟨_, _, rfl, rfl, ?_⟩
    iterate 6 refine .cons (by simp [Orderly]) rfl ?_
    exact .cons (fun _ timer => List.not_mem_nil) rfl (.nil _)
  obtain ⟨s, effects, ran, closed, guarded⟩ := ran
  exact ⟨s, effects, ran, closed, orderly_behaves guarded⟩

end DistributedCache.Dashboard

import DistributedCache.Core.History
import DistributedCache.Protocol.CacheService
import DistributedCache.Server.RespClient

/-! The cache node at work: the RESP connections, each in its own worker running `HandleRespClient`,
and the handlers of the gRPC server, all on one store, one set of metrics, and one stop flag.
A worker stands where its next atomic step begins: a load of the flag, a `recv`, a section of
the store, the increment of the request counter, or a `SendAll`. -/

namespace DistributedCache.Server

open DistributedCache.Core DistributedCache.Protocol Lib

/-- What `DispatchCommand` has after `store.Get`. -/
def getResult : Option Bytes → CommandResult
  | none => ⟨.notFound, none, []⟩
  | some value => ⟨.ok, some value, []⟩

/-- What `DispatchCommand` has after `store.Set`. -/
def setResult : CommandResult := ⟨.ok, none, []⟩

variable {cfg : Config} {ι : Type}

/-- `DispatchCommand` up to its first section on the store: a result without the store, or the call
of the store that it makes.  A `Set` without a TTL reads the clock once before its section. -/
def beginCommand (command : Bytes) (args : List Bytes) (now : Int) : CommandResult ⊕ Call cfg :=
  let name := toUpper command
  if name = ascii "SET" then
    match args with
    | [key, value] =>
      if key = [] then .inl (errorResult .invalidKey kEmptyKeyMessage)
      else .inr (.setSection key value none now)
    | _ => .inl (errorResult .error (ascii "wrong number of arguments"))
  else if name = ascii "GET" then
    match args with
    | [key] =>
      if key = [] then .inl (errorResult .invalidKey kEmptyKeyMessage)
      else .inr (.getShared key)
    | _ => .inl (errorResult .error (ascii "wrong number of arguments"))
  else .inl (errorResult .unknownCommand (ascii "unknown command"))

variable (cfg) in
/-- A command has a result without the store, or it is a `SET` or a `GET` with a key and calls the
store. -/
theorem beginCommand_cases (command : Bytes) (args : List Bytes) (now : Int) :
    (∃ result, (beginCommand command args now : CommandResult ⊕ Call cfg) = .inl result ∧
      ¬Accepted ⟨command, args⟩ ∧ ∀ (store : ConcurrentStore cfg) (clock : Nat → Int),
        dispatchCommand command args store clock = some (store, result)) ∨
    (∃ key value, toUpper command = ascii "SET" ∧ args = [key, value] ∧ key ≠ [] ∧
      (beginCommand command args now : CommandResult ⊕ Call cfg) =
        .inr (.setSection key value none now)) ∨
    ∃ key, toUpper command = ascii "GET" ∧ args = [key] ∧ key ≠ [] ∧
      (beginCommand command args now : CommandResult ⊕ Call cfg) = .inr (.getShared key) := by
  simp only [Accepted, spells_set, spells_get]
  by_cases isSet : toUpper command = ascii "SET"
  · rcases args with _ | ⟨key, _ | ⟨value, _ | ⟨third, more⟩⟩⟩
    · simp [beginCommand, dispatchCommand, isSet, set_ne_get]
    · simp [beginCommand, dispatchCommand, isSet, set_ne_get]
    · by_cases empty : key = []
      · simp [beginCommand, dispatchCommand, isSet, empty]
      · exact .inr (.inl ⟨key, value, isSet, rfl, empty, by simp [beginCommand, isSet, empty]⟩)
    · simp [beginCommand, dispatchCommand, isSet, set_ne_get]
  · by_cases isGet : toUpper command = ascii "GET"
    · rcases args with _ | ⟨key, _ | ⟨second, more⟩⟩
      · simp [beginCommand, dispatchCommand, isGet, set_ne_get.symm]
      · by_cases empty : key = []
        · simp [beginCommand, dispatchCommand, isGet, empty, set_ne_get.symm]
        · refine .inr (.inr ⟨key, isGet, rfl, empty, ?_⟩)
          simp [beginCommand, isGet, empty, set_ne_get.symm]
      · simp [beginCommand, dispatchCommand, isGet, set_ne_get.symm]
    · simp [beginCommand, dispatchCommand, isSet, isGet]

/-- The result of `DispatchCommand` if the step of its call of the store that led to `call` with
the event `event` was the last one. -/
def finishCommand (call : Call cfg) (event : Event) : Option CommandResult :=
  match event, call with
  | .returned _ _ value, _ => some (getResult value)
  | _, .idle => some setResult
  | _, _ => none

/-- What a front end does for a request up to its first section on the store. -/
def beginRequest (request : Ingress) (now : Int) : CommandResult ⊕ Call cfg :=
  match request with
  | .resp cmd => beginCommand cmd.name cmd.args now
  | .grpcSet request => beginCommand (ascii "SET") [request.key, request.value] now
  | .grpcGet request => beginCommand (ascii "GET") [request.key] now

/-- What a front end answers to a request after the dispatcher's result. -/
def answerFor (request : Ingress) (result : CommandResult) : Answer :=
  match request with
  | .resp _ => .resp (encodeResult result)
  | .grpcSet _ =>
    .grpcSet (CacheServiceImpl.setReply result).1 (CacheServiceImpl.setReply result).2
  | .grpcGet _ =>
    .grpcGet (CacheServiceImpl.getReply result).1 (CacheServiceImpl.getReply result).2

/-- What the workers share: the store, `cache_resp_requests_total`, and the stop flag. -/
structure CacheNode (cfg : Config) where
  store : ConcurrentStore cfg
  requests : Nat
  stop : Bool

/-- The local variables of `HandleRespClient`. -/
structure Stream where
  buffer : Bytes
  lastActivity : Int

/-- Where a worker stands. -/
inductive Worker (cfg : Config)
  /-- It serves no connection and no call yet. -/
  | waiting
  /-- The outer loop is about to load the flag. -/
  | outer (stream : Stream)
  /-- It is about to call `recv`. -/
  | receiving (stream : Stream)
  /-- The loop over the frames is about to load the flag. -/
  | inner (stream : Stream)
  /-- `ExecuteCommand` is in a call of the store. -/
  | executing (stream : Stream) (cmd : RESPCommand) (consumed : Nat) (call : Call cfg)
  /-- It is about to count the request. -/
  | counting (stream : Stream) (consumed : Nat) (reply : Bytes)
  /-- It is about to send the reply. -/
  | replying (stream : Stream) (consumed : Nat) (reply : Bytes)
  /-- It is about to send the line for a frame that is too long. -/
  | refusing
  /-- `HandleRespClient` has returned. -/
  | closed
  /-- A handler of the gRPC server is in a call of the store. -/
  | handling (request : Ingress) (call : Call cfg)
  /-- The handler is about to return. -/
  | answering (answer : Answer)

/-- What the environment gives to a step: a connection, a call of the gRPC server, the outcome of
a `recv` or a `SendAll`, a reading of the clock for the next step of the worker's own code, another
order of the entries of a stripe, or a store to the stop flag, by the signal handler or by
`RequestStop`. -/
inductive Input
  | connect (now : Int)
  | rpc (request : Ingress) (now : Int)
  | recv (outcome : Recv)
  | send (fault : Option Nat)
  | proceed (clock : Int)
  | reorder (i : Nat) (map : Stripe)
  | signal

/-- What a step shows. -/
inductive NodeEvent
  | received (chunk : Bytes)
  | invoked (request : Ingress)
  | responded (answer : Answer)
  /-- `SendAll` has failed after `sent`. -/
  | broken (reply sent : Bytes)
  /-- The line for a frame that is too long was sent, or the first part of it. -/
  | refused (sent : Bytes)
  | counted
  | stopped
  | silent

def kRefusal : Bytes := ascii "-ERR invalid command\r\n"

namespace Worker

/-- The test of the buffer's size after the loop over the frames. -/
def limitFrame (stream : Stream) : Worker cfg :=
  if kMaxRespFrameBytes < stream.buffer.length then refusing else outer stream

/-- `ExecuteCommand` on a parsed command. -/
def startCommand (stream : Stream) (cmd : RESPCommand) (consumed : Nat) (now : Int) : Worker cfg :=
  match beginCommand cmd.name cmd.args now with
  | .inl result => counting stream consumed (encodeResult result)
  | .inr call => executing stream cmd consumed call

/-- A handler of the gRPC server. -/
def startCall (request : Ingress) (now : Int) : Worker cfg :=
  match beginRequest request now with
  | .inl result => answering (answerFor request result)
  | .inr call => handling request call

/-- The loop over the frames after it has found the flag clear. -/
def parse (stream : Stream) (now : Int) : Option (Worker cfg × NodeEvent) :=
  match parseRESP stream.buffer with
  | .error _ => none
  | .ok parsed =>
    if parsed.command.name = [] ∨ parsed.bytesConsumed = 0 then some (limitFrame stream, .silent)
    else some (startCommand stream parsed.command parsed.bytesConsumed now,
      .invoked (.resp parsed.command))

/-- The loop over the frames after a reply was sent. -/
def nextFrame (stream : Stream) (consumed : Nat) : Worker cfg :=
  let stream := { stream with buffer := stream.buffer.drop consumed }
  if stream.buffer = [] then limitFrame stream else inner stream

/-- The next step of the worker's own code, at clock reading `clock`. -/
def proceed (node : CacheNode cfg) (clock : Int) :
    Worker cfg → Option (CacheNode cfg × Worker cfg × NodeEvent)
  | outer stream => some (node, if node.stop then closed else receiving stream, .silent)
  | inner stream =>
    if node.stop then some (node, limitFrame stream, .silent)
    else (parse stream clock).map fun r => (node, r)
  | executing stream cmd consumed call =>
    (call.proceed node.store clock).map fun r =>
      ({ node with store := r.1 },
        match finishCommand r.2.1 r.2.2 with
        | some result => counting stream consumed (encodeResult result)
        | none => executing stream cmd consumed r.2.1, .silent)
  | counting stream consumed reply =>
    some ({ node with requests := node.requests + 1 }, replying stream consumed reply, .counted)
  | handling request call =>
    (call.proceed node.store clock).map fun r =>
      ({ node with store := r.1 },
        match finishCommand r.2.1 r.2.2 with
        | some result => answering (answerFor request result)
        | none => handling request r.2.1, .silent)
  | answering answer => some (node, waiting, .responded answer)
  | waiting | receiving _ | replying .. | refusing | closed => none

/-- The step after `recv` has returned. -/
def receive (idleTimeout : Int) (stream : Stream) : Recv → Option (Worker cfg × NodeEvent)
  | .closed | .failed => some (closed, .silent)
  | .interrupted => some (outer stream, .silent)
  | .wouldBlock now =>
    some (if idleTimeout < now - stream.lastActivity then closed else outer stream, .silent)
  | .data chunk now =>
    if chunk = [] ∨ 4096 < chunk.length then none
    else some (inner ⟨stream.buffer ++ chunk, now⟩, .received chunk)

/-- The step in which `SendAll` returns. -/
def send (fault : Option Nat) : Worker cfg → Option (Worker cfg × NodeEvent)
  | replying stream consumed reply =>
    let outcome := sendAll fault reply
    if outcome.2 = false then some (closed, .broken reply outcome.1)
    else some (nextFrame stream consumed, .responded (.resp reply))
  | refusing => some (closed, .refused (sendAll fault kRefusal).1)
  | _ => none

/-- One atomic step of a worker. -/
def advance (idleTimeout : Int) (node : CacheNode cfg) (worker : Worker cfg) :
    Input → Option (CacheNode cfg × Worker cfg × NodeEvent)
  | .connect now =>
    match worker with
    | waiting => some (node, outer ⟨[], now⟩, .silent)
    | _ => none
  | .rpc request now =>
    match worker, request with
    | waiting, .grpcSet _ | waiting, .grpcGet _ =>
      some (node, startCall request now, .invoked request)
    | _, _ => none
  | .recv outcome =>
    match worker with
    | receiving stream => (receive idleTimeout stream outcome).map fun r => (node, r)
    | _ => none
  | .send fault => (worker.send fault).map fun r => (node, r)
  | .proceed clock => worker.proceed node clock
  | .reorder i map =>
    (Call.idle.advance node.store (.reorder i map)).map fun r =>
      ({ node with store := r.1 }, worker, .silent)
  | .signal => some ({ node with stop := true }, worker, .stopped)

/-- The ways in which a worker can move by a step of its own code. -/
inductive Steps : CacheNode cfg → Worker cfg → CacheNode cfg → Worker cfg → NodeEvent → Prop
  | connect {node : CacheNode cfg} (now : Int) :
      Steps node waiting node (outer ⟨[], now⟩) .silent
  | rpc {node : CacheNode cfg} (request : Ingress) (now : Int) :
      (∀ cmd, request ≠ .resp cmd) →
      Steps node waiting node (startCall request now) (.invoked request)
  | leave {node : CacheNode cfg} {stream : Stream} : node.stop = true →
      Steps node (outer stream) node closed .silent
  | stay {node : CacheNode cfg} {stream : Stream} : node.stop = false →
      Steps node (outer stream) node (receiving stream) .silent
  | hangUp {node : CacheNode cfg} {stream : Stream} :
      Steps node (receiving stream) node closed .silent
  | again {node : CacheNode cfg} {stream : Stream} :
      Steps node (receiving stream) node (outer stream) .silent
  | data {node : CacheNode cfg} {stream : Stream} (chunk : Bytes) (now : Int) : chunk ≠ [] →
      Steps node (receiving stream) node (inner ⟨stream.buffer ++ chunk, now⟩) (.received chunk)
  | leaveFrames {node : CacheNode cfg} {stream : Stream} : node.stop = true →
      Steps node (inner stream) node (limitFrame stream) .silent
  | stuck {node : CacheNode cfg} {stream : Stream} : node.stop = false →
      respFraming.cut stream.buffer = none →
      Steps node (inner stream) node (limitFrame stream) .silent
  | take {node : CacheNode cfg} {stream : Stream} {cmd : RESPCommand} {consumed : Nat} (now : Int) :
      node.stop = false →
      respFraming.cut stream.buffer = some (cmd, stream.buffer.drop consumed) →
      Steps node (inner stream) node (startCommand stream cmd consumed now)
        (.invoked (.resp cmd))
  | execute {node : CacheNode cfg} {stream : Stream} {cmd : RESPCommand} {consumed : Nat}
      {call call' : Call cfg} {store : ConcurrentStore cfg} {event : Event} (clock : Int) :
      call.proceed node.store clock = some (store, call', event) →
      finishCommand call' event = none →
      Steps node (executing stream cmd consumed call) { node with store := store }
        (executing stream cmd consumed call') .silent
  | executed {node : CacheNode cfg} {stream : Stream} {cmd : RESPCommand} {consumed : Nat}
      {call call' : Call cfg} {store : ConcurrentStore cfg} {event : Event}
      {result : CommandResult} (clock : Int) :
      call.proceed node.store clock = some (store, call', event) →
      finishCommand call' event = some result →
      Steps node (executing stream cmd consumed call) { node with store := store }
        (counting stream consumed (encodeResult result)) .silent
  | count {node : CacheNode cfg} {stream : Stream} {consumed : Nat} {reply : Bytes} :
      Steps node (counting stream consumed reply) { node with requests := node.requests + 1 }
        (replying stream consumed reply) .counted
  | reply {node : CacheNode cfg} {stream : Stream} {consumed : Nat} {reply : Bytes} :
      Steps node (replying stream consumed reply) node (nextFrame stream consumed)
        (.responded (.resp reply))
  | fail {node : CacheNode cfg} {stream : Stream} {consumed : Nat} {reply sent : Bytes} :
      sent <+: reply → sent ≠ reply →
      Steps node (replying stream consumed reply) node closed (.broken reply sent)
  | refuse {node : CacheNode cfg} {sent : Bytes} : sent <+: kRefusal →
      Steps node refusing node closed (.refused sent)
  | handle {node : CacheNode cfg} {request : Ingress} {call call' : Call cfg}
      {store : ConcurrentStore cfg} {event : Event} (clock : Int) :
      call.proceed node.store clock = some (store, call', event) →
      finishCommand call' event = none →
      Steps node (handling request call) { node with store := store } (handling request call')
        .silent
  | handled {node : CacheNode cfg} {request : Ingress} {call call' : Call cfg}
      {store : ConcurrentStore cfg} {event : Event} {result : CommandResult} (clock : Int) :
      call.proceed node.store clock = some (store, call', event) →
      finishCommand call' event = some result →
      Steps node (handling request call) { node with store := store }
        (answering (answerFor request result)) .silent
  | answer {node : CacheNode cfg} {answer : Answer} :
      Steps node (answering answer) node waiting (.responded answer)

/-- The ways in which a worker can move: by a step of its own, or by what happens to the store's
order or to the flag while it stays where it is. -/
inductive Advances : CacheNode cfg → Worker cfg → CacheNode cfg → Worker cfg → NodeEvent → Prop
  | step {node node' : CacheNode cfg} {worker worker' : Worker cfg} {event : NodeEvent} :
      Steps node worker node' worker' event → Advances node worker node' worker' event
  | reorder {node : CacheNode cfg} {worker : Worker cfg} {i : Fin cfg.stripeCount} {map : Stripe} :
      map.entries.Perm (node.store.stripes i).entries →
      Advances node worker
        { node with
          store := { node.store with stripes := Function.update node.store.stripes i map } }
        worker .silent
  | signal {node : CacheNode cfg} {worker : Worker cfg} :
      Advances node worker { node with stop := true } worker .stopped

/-- What `SendAll` has sent when it fails. -/
theorem sendAll_cases (fault : Option Nat) (payload : Bytes) :
    sendAll fault payload = (payload, true) ∨
      ∃ sent, sendAll fault payload = (sent, false) ∧ sent <+: payload ∧ sent ≠ payload := by
  unfold sendAll
  cases fault with
  | none => exact .inl rfl
  | some n =>
    by_cases short : n < payload.length
    · refine .inr ⟨payload.take n, by simp [short], List.take_prefix n payload, fun same => ?_⟩
      have := congrArg List.length same
      rw [List.length_take] at this
      omega
    · exact .inl (by simp [short])

theorem parse_sound {node : CacheNode cfg} {stream : Stream} {now : Int} {worker : Worker cfg}
    {event : NodeEvent} (running : node.stop = false)
    (parsed : parse stream now = some (worker, event)) :
    Steps node (inner stream) node worker event := by
  unfold parse at parsed
  cases head : respFraming.cut stream.buffer with
  | none =>
    obtain ⟨result, read, refused⟩ := parse_of_cut_eq_none head
    simp only [read, if_pos refused] at parsed
    cases parsed
    exact .stuck running head
  | some taken =>
    obtain ⟨cmd, rest⟩ := taken
    obtain ⟨result, read, accepted, rfl, rfl⟩ := parse_of_cut_eq_some head
    simp only [read, if_neg accepted] at parsed
    cases parsed
    exact .take now running head

theorem proceed_sound {node node' : CacheNode cfg} {worker worker' : Worker cfg} {clock : Int}
    {event : NodeEvent} (moved : worker.proceed node clock = some (node', worker', event)) :
    Steps node worker node' worker' event := by
  cases worker with
  | outer stream =>
    cases stop : node.stop <;> simp only [proceed, stop] at moved <;> cases moved
    · exact .stay stop
    · exact .leave stop
  | inner stream =>
    cases stop : node.stop <;> simp only [proceed, stop] at moved
    · obtain ⟨⟨next, shown⟩, parsed, same⟩ := Option.map_eq_some_iff.mp moved
      cases same
      exact parse_sound stop parsed
    · cases moved
      exact .leaveFrames stop
  | executing stream cmd consumed call =>
    obtain ⟨⟨store, call', shown⟩, ran, same⟩ := Option.map_eq_some_iff.mp moved
    cases ends : finishCommand call' shown <;> simp only [ends] at same <;> cases same
    · exact .execute clock ran ends
    · exact .executed clock ran ends
  | handling request call =>
    obtain ⟨⟨store, call', shown⟩, ran, same⟩ := Option.map_eq_some_iff.mp moved
    cases ends : finishCommand call' shown <;> simp only [ends] at same <;> cases same
    · exact .handle clock ran ends
    · exact .handled clock ran ends
  | counting stream consumed reply =>
    cases moved
    exact .count
  | answering answer =>
    cases moved
    exact .answer
  | waiting | receiving _ | replying _ _ _ | refusing | closed => cases moved

theorem receive_sound {idleTimeout : Int} {node : CacheNode cfg} {stream : Stream}
    {outcome : Recv} {worker : Worker cfg} {event : NodeEvent}
    (moved : receive idleTimeout stream outcome = some (worker, event)) :
    Steps node (receiving stream) node worker event := by
  cases outcome with
  | data chunk now =>
    simp only [receive] at moved
    split at moved
    · cases moved
    · rename_i fits
      cases moved
      exact .data chunk now fun empty => fits (.inl empty)
  | wouldBlock now =>
    simp only [receive] at moved
    split at moved <;> cases moved
    · exact .hangUp
    · exact .again
  | closed | failed =>
    cases moved
    exact .hangUp
  | interrupted =>
    cases moved
    exact .again

theorem send_sound {node : CacheNode cfg} {worker worker' : Worker cfg} {fault : Option Nat}
    {event : NodeEvent} (moved : worker.send fault = some (worker', event)) :
    Steps node worker node worker' event := by
  cases worker with
  | replying stream consumed reply =>
    rcases sendAll_cases fault reply with whole | ⟨sent, part, early, short⟩
    · simp only [send, whole] at moved
      cases moved
      exact .reply
    · simp only [send, part] at moved
      cases moved
      exact .fail early short
  | refusing =>
    cases moved
    refine .refuse ?_
    rcases sendAll_cases fault kRefusal with whole | ⟨sent, part, early, -⟩
    · rw [whole]
    · rw [part]
      exact early
  | _ => cases moved

/-- The input is for the worker's own code. -/
def own : Input → Bool
  | .reorder .. | .signal => false
  | .connect _ | .rpc .. | .recv _ | .send _ | .proceed _ => true

theorem own_sound {idleTimeout : Int} {node node' : CacheNode cfg} {worker worker' : Worker cfg}
    {input : Input} {event : NodeEvent} (ownInput : own input = true)
    (moved : worker.advance idleTimeout node input = some (node', worker', event)) :
    Steps node worker node' worker' event := by
  cases input with
  | connect now =>
    cases worker <;> cases moved
    exact .connect now
  | rpc request now =>
    simp only [advance] at moved
    split at moved
    · cases moved
      exact .rpc _ now fun _ => nofun
    · cases moved
      exact .rpc _ now fun _ => nofun
    · cases moved
  | recv outcome =>
    simp only [advance] at moved
    split at moved
    · obtain ⟨⟨next, shown⟩, received, same⟩ := Option.map_eq_some_iff.mp moved
      cases same
      exact receive_sound received
    · cases moved
  | send fault =>
    obtain ⟨⟨next, shown⟩, sent, same⟩ := Option.map_eq_some_iff.mp moved
    cases same
    exact send_sound sent
  | proceed clock => exact proceed_sound moved
  | reorder | signal => cases ownInput

theorem advance_sound {idleTimeout : Int} {node node' : CacheNode cfg} {worker worker' : Worker cfg}
    {input : Input} {event : NodeEvent}
    (moved : worker.advance idleTimeout node input = some (node', worker', event)) :
    Advances node worker node' worker' event := by
  cases input with
  | reorder i map =>
    obtain ⟨⟨store, call, shown⟩, reordered, same⟩ := Option.map_eq_some_iff.mp moved
    cases same
    simp only [Call.advance] at reordered
    split at reordered
    · split at reordered
      · rename_i perm
        cases reordered
        exact .reorder perm
      · cases reordered
    · cases reordered
  | signal =>
    cases moved
    exact .signal
  | connect | rpc | recv | send | proceed => exact .step (own_sound rfl moved)

end Worker

/-- The workers of a node, with the worker of each event. -/
def cacheNode (ι : Type) (cfg : Config) (idleTimeout : Int) :
    Program ι (CacheNode cfg) (Worker cfg) Input (ι × NodeEvent) where
  advance i node worker input :=
    (worker.advance idleTimeout node input).map fun r => (r.1, r.2.1, (i, r.2.2))

/-- A node that has just started. -/
def nodeStart (ι : Type) (cfg : Config) : Pool ι (CacheNode cfg) (Worker cfg) :=
  ⟨⟨.new cfg, 0, false⟩, fun _ => .waiting⟩

end DistributedCache.Server

import DistributedCache.Lib.Framing
import DistributedCache.Server.CommandDispatcher

/-! The loop that serves one RESP connection.  The environment decides what `recv` returns, when the
stop flag is set, which sends fail, and what the store reads from the clock. -/

namespace DistributedCache.Server

open DistributedCache.Core DistributedCache.Protocol Lib

def kMaxRespFrameBytes : Nat := 1024 * 1024

/-- What a call of `recv` returns, with the reading of the clock that follows it. -/
inductive Recv
  | data (chunk : Bytes) (now : Int)
  | closed
  | interrupted
  | wouldBlock (now : Int)
  | failed
deriving DecidableEq, Repr

/-- The environment of a connection, indexed by the number of earlier interactions with it.
`sendFault` gives the number of bytes after which a call of `SendAll` meets an error. -/
structure Env where
  stop : Nat → Bool
  sendFault : Nat → Option Nat
  clock : Nat → Int
  idleTimeout : Int

/-- The state of `HandleRespClient`.  `log` has the executed commands with their replies, `sent` the
bytes that each call of `SendAll` has sent, and `requests` the counter `cache_resp_requests_total`.
`isOpen` is false after the function has returned. -/
structure Client (cfg : Config) where
  store : ConcurrentStore cfg
  buffer : Bytes
  log : List (RESPCommand × Bytes)
  sent : List Bytes
  requests : Nat
  lastActivity : Int
  tick : Nat
  isOpen : Bool

/-- `SendAll`: the bytes that it sends and whether it sends them all. -/
def sendAll (fault : Option Nat) (payload : Bytes) : Bytes × Bool :=
  match fault with
  | none => (payload, true)
  | some n => if n < payload.length then (payload.take n, false) else (payload, true)

variable {cfg : Config}

namespace Client

def close (client : Client cfg) : Client cfg := { client with isOpen := false }

/-- A call of `SendAll`, and its result. -/
def send (env : Env) (client : Client cfg) (payload : Bytes) : Client cfg × Bool :=
  let outcome := sendAll (env.sendFault client.tick) payload
  ({ client with sent := client.sent ++ [outcome.1], tick := client.tick + 1 }, outcome.2)

/-- A call of `ExecuteCommand`, with the update of the metrics. -/
def execute (env : Env) (client : Client cfg) (cmd : RESPCommand) : Option (Client cfg × Bytes) :=
  (executeCommand cmd client.store fun i => env.clock (client.tick + i)).map fun (after, reply) =>
    ({ client with
      store := after
      log := client.log ++ [(cmd, reply)]
      requests := client.requests + 1
      tick := client.tick + 3 }, reply)

/-- The loop over the frames in the buffer.  Each round takes at least one byte off the buffer, so
more rounds than there are bytes are not needed. -/
def drain (env : Env) : Nat → Client cfg → Option (Client cfg)
  | 0, _ => none
  | fuel + 1, client =>
    if env.stop client.tick then some { client with tick := client.tick + 1 }
    else
      match parseRESP client.buffer with
      | .error _ => none
      | .ok parsed =>
        if parsed.command.name = [] ∨ parsed.bytesConsumed = 0 then
          some { client with tick := client.tick + 1 }
        else
          match execute env { client with tick := client.tick + 1 } parsed.command with
          | none => none
          | some (client, response) =>
            let (client, ok) := client.send env response
            if ok = false then some client.close
            else
              let client := { client with buffer := client.buffer.drop parsed.bytesConsumed }
              if client.buffer = [] then some client else drain env fuel client

/-- The test of the buffer's size after the loop over its frames. -/
def enforceFrameLimit (env : Env) (client : Client cfg) : Client cfg :=
  if client.isOpen = true ∧ kMaxRespFrameBytes < client.buffer.length then
    (client.send env (ascii "-ERR invalid command\r\n")).1.close
  else client

/-- One round of the outer loop, in which `recv` returns `outcome`. -/
def receive (env : Env) (client : Client cfg) (outcome : Recv) : Option (Client cfg) :=
  if env.stop client.tick then some client.close
  else
    let client := { client with tick := client.tick + 1 }
    match outcome with
    | .closed => some client.close
    | .interrupted => some client
    | .wouldBlock now =>
      if env.idleTimeout < now - client.lastActivity then some client.close else some client
    | .failed => some client.close
    | .data chunk now =>
      let client := { client with lastActivity := now, buffer := client.buffer ++ chunk }
      (drain env (client.buffer.length + 1) client).map (enforceFrameLimit env)

/-- The outer loop, until `recv` has returned all of the outcomes or the function returns. -/
def serve (env : Env) (client : Client cfg) : List Recv → Option (Client cfg)
  | [] => some client
  | outcome :: outcomes =>
    if client.isOpen = true then (client.receive env outcome).bind fun after =>
      serve env after outcomes
    else some client

end Client

/-- `HandleRespClient` on a new connection that begins at the time `now`. -/
def handleRespClient (env : Env) (store : ConcurrentStore cfg) (now : Int)
    (outcomes : List Recv) : Option (Client cfg) :=
  Client.serve env ⟨store, [], [], [], 0, now, 0, true⟩ outcomes

/-! ### Frames as the loop takes them -/

/-- The loop takes a frame off the buffer if the frame has a command name. -/
def respFraming : Framing UInt8 RESPCommand where
  cut s :=
    match parseRESP s with
    | .error _ => none
    | .ok parsed =>
      if parsed.command.name = [] ∨ parsed.bytesConsumed = 0 then none
      else some (parsed.command, s.drop parsed.bytesConsumed)
  exact_cut := by
    intro s f rest taken
    rcases parseRESP_cases s with ⟨bytes, tail, parts, rfl, frame⟩ | ⟨rejects, -⟩
    · rw [parseRESP_append tail frame] at taken
      simp only [List.drop_left] at taken
      split at taken
      · cases taken
      · rename_i accepted
        cases taken
        refine ⟨bytes, List.ne_nil_of_length_pos frame.length_pos, rfl, fun t => ?_⟩
        simp only [parseRESP_append t frame, List.drop_left, if_neg accepted]
    · simp [rejects, RESPParseResult.empty] at taken

theorem cut_frame {bytes : Bytes} {name : Bytes} {args : List Bytes}
    (frame : Frame bytes (name :: args)) (named : name ≠ []) (rest : Bytes) :
    respFraming.cut (bytes ++ rest) = some (⟨name, args⟩, rest) := by
  have positive := frame.length_pos
  simp [respFraming, parseRESP_append rest frame, commandOf, named, Nat.ne_of_gt positive]

/-- A frame without a command name stays at the head of the buffer. -/
theorem cut_unnamed {bytes : Bytes} {args : List Bytes} (frame : Frame bytes ([] :: args))
    (rest : Bytes) : respFraming.cut (bytes ++ rest) = none := by
  simp [respFraming, parseRESP_append rest frame, commandOf]

/-- A frame is taken as a whole, with its name and arguments, or not at all. -/
theorem cut_frame_eq_some {bytes rest t : Bytes} {parts : List Bytes} {cmd : RESPCommand}
    (frame : Frame bytes parts) (taken : respFraming.cut (bytes ++ t) = some (cmd, rest)) :
    rest = t ∧ cmd.name ≠ [] ∧ parts = cmd.name :: cmd.args := by
  match parts, frame with
  | [], frame => exact absurd rfl frame.parts_ne_nil
  | [] :: args, frame => simp [cut_unnamed frame] at taken
  | (b :: name) :: args, frame =>
    rw [cut_frame frame (List.cons_ne_nil b name)] at taken
    cases taken
    exact ⟨rfl, List.cons_ne_nil b name, rfl⟩

theorem cut_eq_some {s rest : Bytes} {cmd : RESPCommand}
    (taken : respFraming.cut s = some (cmd, rest)) :
    cmd.name ≠ [] ∧ ∃ bytes, s = bytes ++ rest ∧ Frame bytes (cmd.name :: cmd.args) := by
  rcases parseRESP_cases s with ⟨bytes, tail, parts, rfl, frame⟩ | ⟨rejects, -⟩
  · obtain ⟨rfl, named, rfl⟩ := cut_frame_eq_some frame taken
    exact ⟨named, bytes, rfl, frame⟩
  · simp [respFraming, rejects, RESPParseResult.empty] at taken

theorem parse_of_cut_eq_some {s rest : Bytes} {cmd : RESPCommand}
    (taken : respFraming.cut s = some (cmd, rest)) :
    ∃ parsed, parseRESP s = .ok parsed ∧ ¬(parsed.command.name = [] ∨ parsed.bytesConsumed = 0) ∧
      parsed.command = cmd ∧ s.drop parsed.bytesConsumed = rest := by
  dsimp only [respFraming] at taken
  split at taken
  · cases taken
  · rename_i parsed read
    split at taken
    · cases taken
    · rename_i accepted
      cases taken
      exact ⟨parsed, read, accepted, rfl, rfl⟩

theorem parse_of_cut_eq_none {s : Bytes} (stuck : respFraming.cut s = none) :
    ∃ parsed, parseRESP s = .ok parsed ∧
      (parsed.command.name = [] ∨ parsed.bytesConsumed = 0) := by
  dsimp only [respFraming] at stuck
  split at stuck
  · rename_i e faults
    rcases parseRESP_cases s with ⟨bytes, tail, parts, rfl, frame⟩ | ⟨rejects, -⟩
    · simp [parseRESP_append tail frame] at faults
    · simp [rejects] at faults
  · rename_i parsed read
    split at stuck
    · rename_i refused
      exact ⟨parsed, read, refused⟩
    · cases stuck

/-! ### A connection that nothing disturbs -/

/-- The stop flag is never set and no send fails. -/
structure Env.Calm (env : Env) : Prop where
  stop : ∀ n, env.stop n = false
  send : ∀ n, env.sendFault n = none

/-- `recv` returns the chunks one after the other, possibly after waits that are too short for the
idle timeout. -/
inductive Delivers (idleTimeout : Int) : Int → List Recv → List Bytes → Prop
  | nil {last} : Delivers idleTimeout last [] []
  | data {last chunk now outcomes chunks} : Delivers idleTimeout now outcomes chunks →
      Delivers idleTimeout last (.data chunk now :: outcomes) (chunk :: chunks)
  | interrupted {last outcomes chunks} : Delivers idleTimeout last outcomes chunks →
      Delivers idleTimeout last (.interrupted :: outcomes) chunks
  | wouldBlock {last now outcomes chunks} : now - last ≤ idleTimeout →
      Delivers idleTimeout last outcomes chunks →
      Delivers idleTimeout last (.wouldBlock now :: outcomes) chunks

/-- The commands of `log` take the store to `after` and return the replies in `log`. -/
inductive Executes : ConcurrentStore cfg → List (RESPCommand × Bytes) → ConcurrentStore cfg → Prop
  | nil {store} : Executes store [] store
  | cons {store cmd clock mid reply log after} :
      executeCommand cmd store clock = some (mid, reply) → Executes mid log after →
      Executes store ((cmd, reply) :: log) after

theorem Executes.append {store mid after : ConcurrentStore cfg}
    {log log' : List (RESPCommand × Bytes)} (first : Executes store log mid)
    (rest : Executes mid log' after) : Executes store (log ++ log') after := by
  induction first with
  | nil => exact rest
  | cons ran _ ih => exact .cons ran (ih rest)

/-- The connection has executed `log` and sent its replies, one for each command, after what it sent
before.  It holds `r` in its buffer, and if it has given up, it has said so and closed. -/
structure Client.Served (client after : Client cfg) (log : List (RESPCommand × Bytes)) (r : Bytes)
    (gaveUp : Bool) : Prop where
  executes : Executes client.store log after.store
  logged : after.log = client.log ++ log
  replied : after.sent = client.sent ++ log.map Prod.snd ++
    if gaveUp then [ascii "-ERR invalid command\r\n"] else []
  counted : after.requests = client.requests + log.length
  buffer : after.buffer = r
  isOpen : after.isOpen = !gaveUp

theorem Client.Served.idle {client : Client cfg} (opened : client.isOpen = true) (buffer : Bytes)
    (lastActivity : Int) (tick : Nat) :
    client.Served { client with buffer := buffer, lastActivity := lastActivity, tick := tick } []
      buffer false :=
  ⟨.nil, (List.append_nil _).symm, by simp, rfl, rfl, opened⟩

theorem Client.Served.trans {client mid after : Client cfg}
    {log log' : List (RESPCommand × Bytes)} {r r' : Bytes} {gaveUp : Bool}
    (first : client.Served mid log r false) (rest : mid.Served after log' r' gaveUp) :
    client.Served after (log ++ log') r' gaveUp where
  executes := first.executes.append rest.executes
  logged := by rw [rest.logged, first.logged, List.append_assoc]
  replied := by rw [rest.replied, first.replied]; simp
  counted := by rw [rest.counted, first.counted, List.length_append, Nat.add_assoc]
  buffer := rest.buffer
  isOpen := rest.isOpen

section

variable {env : Env} (calm : env.Calm) {Good : ConcurrentStore cfg → Prop}
  (total : ∀ store cmd clock, Good store →
    ∃ after reply, executeCommand cmd store clock = some (after, reply) ∧ Good after)

include total in
theorem Executes.good {store after : ConcurrentStore cfg} {log : List (RESPCommand × Bytes)}
    (executes : Executes store log after) (good : Good store) : Good after := by
  induction executes with
  | nil => exact good
  | @cons store cmd clock mid reply log after ran _ ih =>
    obtain ⟨_, _, ran', good'⟩ := total store cmd clock good
    rw [ran] at ran'
    cases ran'
    exact ih good'

include calm

theorem Client.send_calm (client : Client cfg) (payload : Bytes) :
    client.send env payload =
      ({ client with sent := client.sent ++ [payload], tick := client.tick + 1 }, true) := by
  simp [send, sendAll, calm.send]

theorem Client.drain_stuck (fuel : Nat) (client : Client cfg)
    (stuck : respFraming.cut client.buffer = none) :
    client.drain env (fuel + 1) = some { client with tick := client.tick + 1 } := by
  obtain ⟨parsed, read, refused⟩ := parse_of_cut_eq_none stuck
  rw [drain, calm.stop]
  simp [read, refused]

/-- What is left within the limit keeps the connection open. -/
theorem Client.Served.enforceFrameLimit {client after : Client cfg}
    {log : List (RESPCommand × Bytes)} {r : Bytes} (served : client.Served after log r false) :
    client.Served (after.enforceFrameLimit env) log r (kMaxRespFrameBytes < r.length) := by
  have opened : after.isOpen = true := served.isOpen
  unfold Client.enforceFrameLimit
  rw [served.buffer]
  by_cases long : kMaxRespFrameBytes < r.length
  · rw [if_pos ⟨opened, long⟩, Client.send_calm calm, decide_eq_true long]
    refine ⟨served.executes, served.logged, ?_, served.counted, served.buffer, rfl⟩
    simp [Client.close, served.replied]
  · rw [if_neg (fun both => long both.2), decide_eq_false long]
    exact served

include total

/-- One round of the loop over the frames. -/
theorem Client.drain_next (fuel : Nat) (client : Client cfg) (good : Good client.store)
    (opened : client.isOpen = true) {cmd : RESPCommand} {rest : Bytes}
    (taken : respFraming.cut client.buffer = some (cmd, rest)) :
    ∃ (after : Client cfg) (reply : Bytes), client.Served after [(cmd, reply)] rest false ∧
      after.lastActivity = client.lastActivity ∧
      client.drain env (fuel + 1) = if rest = [] then some after else after.drain env fuel := by
  obtain ⟨parsed, read, accepted, rfl, rfl⟩ := parse_of_cut_eq_some taken
  obtain ⟨store, reply, ran, -⟩ := total client.store parsed.command
    (fun i => env.clock (client.tick + 1 + i)) good
  refine ⟨{ client with
    store := store
    buffer := client.buffer.drop parsed.bytesConsumed
    log := client.log ++ [(parsed.command, reply)]
    sent := client.sent ++ [reply]
    requests := client.requests + 1
    tick := client.tick + 5 }, reply,
    ⟨.cons ran .nil, rfl, (List.append_nil _).symm, rfl, rfl, opened⟩, rfl, ?_⟩
  rw [drain, calm.stop]
  simp [read, accepted, execute, ran, send_calm calm]

/-- The loop over the frames executes what can be split off the buffer. -/
theorem Client.drain_splits (fuel : Nat) (client : Client cfg) (good : Good client.store)
    (opened : client.isOpen = true) (enough : client.buffer.length < fuel)
    {cmds : List RESPCommand} {r : Bytes} (splits : respFraming.Splits client.buffer cmds r) :
    ∃ (after : Client cfg) (log : List (RESPCommand × Bytes)),
      client.drain env fuel = some after ∧ log.map Prod.fst = cmds ∧
      client.Served after log r false ∧ after.lastActivity = client.lastActivity := by
  induction fuel generalizing client cmds with
  | zero => omega
  | succ fuel ih =>
    cases splits with
    | stuck ended =>
      exact ⟨_, [], drain_stuck calm fuel client ended, rfl, .idle opened _ _ _, rfl⟩
    | @next _ cmd rest cmds _ taken splits =>
      obtain ⟨mid, reply, served, activity, ran⟩ :=
        drain_next calm total fuel client good opened taken
      by_cases last : rest = []
      · subst last
        obtain ⟨rfl, rfl⟩ := splits.unique (.stuck Framing.cut_nil)
        exact ⟨mid, _, by rw [ran, if_pos rfl], rfl, served, activity⟩
      · have shorter := Framing.cut_shorter taken
        obtain ⟨after, log, ends, names, served', activity'⟩ :=
          ih mid (served.executes.good total good) served.isOpen (by rw [served.buffer]; omega)
            (served.buffer ▸ splits)
        exact ⟨after, _, by rw [ran, if_neg last, ends], by simp [names], served.trans served',
          activity'.trans activity⟩

/-- One chunk: the connection executes what can be split off its buffer, and gives up if more than
the limit is left. -/
theorem Client.receive_data {client : Client cfg} (good : Good client.store)
    (opened : client.isOpen = true) (chunk : Bytes) (now : Int) {cmds : List RESPCommand}
    {r : Bytes} (splits : respFraming.Splits (client.buffer ++ chunk) cmds r) :
    ∃ (after : Client cfg) (log : List (RESPCommand × Bytes)),
      client.receive env (.data chunk now) = some after ∧ log.map Prod.fst = cmds ∧
      client.Served after log r (kMaxRespFrameBytes < r.length) ∧
      (after.isOpen = true → after.lastActivity = now) := by
  obtain ⟨mid, log, ends, names, served, activity⟩ := drain_splits calm total _
    { client with tick := client.tick + 1, lastActivity := now, buffer := client.buffer ++ chunk }
    good opened (Nat.lt_succ_self _) splits
  have limited := served.enforceFrameLimit calm
  refine ⟨mid.enforceFrameLimit env, log, ?_, names, (Served.idle opened _ _ _).trans limited, ?_⟩
  · rw [receive, calm.stop]
    exact congrArg (Option.map (Client.enforceFrameLimit env)) ends
  · intro stays
    rw [limited.isOpen] at stays
    unfold Client.enforceFrameLimit
    rw [served.buffer, if_neg (by simpa using fun _ => stays)]
    exact activity

/-- The connection behaves as the receiver of `Lib.Framing` with the limit `kMaxRespFrameBytes`. -/
theorem Client.serve_receives (client : Client cfg) (good : Good client.store)
    (opened : client.isOpen = true) {outcomes : List Recv} {chunks : List Bytes}
    (delivers : Delivers env.idleTimeout client.lastActivity outcomes chunks)
    {cmds : List RESPCommand} {r : Bytes} {gaveUp : Bool}
    (receives : respFraming.Receives kMaxRespFrameBytes client.buffer chunks cmds r gaveUp) :
    ∃ (after : Client cfg) (log : List (RESPCommand × Bytes)),
      client.serve env outcomes = some after ∧ log.map Prod.fst = cmds ∧
      client.Served after log r gaveUp := by
  induction outcomes generalizing client chunks cmds with
  | nil =>
    cases delivers
    cases receives
    exact ⟨client, [], rfl, rfl, .idle opened _ _ _⟩
  | cons outcome outcomes ih =>
    rw [serve, if_pos opened]
    have idle := Served.idle opened client.buffer client.lastActivity (client.tick + 1)
    cases delivers with
    | interrupted delivers =>
      obtain ⟨after, log, ends, names, served⟩ :=
        ih { client with tick := client.tick + 1 } good opened delivers receives
      refine ⟨after, log, ?_, names, idle.trans served⟩
      rw [receive, calm.stop]
      exact ends
    | wouldBlock soon delivers =>
      obtain ⟨after, log, ends, names, served⟩ :=
        ih { client with tick := client.tick + 1 } good opened delivers receives
      refine ⟨after, log, ?_, names, idle.trans served⟩
      rw [receive, calm.stop]
      simpa [Int.not_lt.mpr soon] using ends
    | @data _ chunk now _ chunks delivers =>
      cases receives with
      | more splits fits rest =>
        obtain ⟨mid, log, received, names, served, activity⟩ :=
          receive_data calm total good opened chunk now splits
        rw [decide_eq_false (Nat.not_lt.mpr fits)] at served
        have opened' := served.isOpen
        obtain ⟨after, log', ends, names', served'⟩ :=
          ih mid (served.executes.good total good) opened' (activity opened' ▸ delivers)
            (served.buffer ▸ rest)
        exact ⟨after, _, by rw [received, Option.bind_some, ends], by simp [names, names'],
          served.trans served'⟩
      | giveUp splits long =>
        obtain ⟨after, log, received, names, served, -⟩ :=
          receive_data calm total good opened chunk now splits
        rw [decide_eq_true long] at served
        refine ⟨after, log, ?_, names, served⟩
        have closed : after.isOpen = false := served.isOpen
        rw [received, Option.bind_some]
        cases outcomes with
        | nil => rfl
        | cons => rw [serve, closed]; rfl

end

end DistributedCache.Server

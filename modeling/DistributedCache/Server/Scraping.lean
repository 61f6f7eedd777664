import DistributedCache.Lib.Balance
import DistributedCache.Metrics.Exposition
import DistributedCache.Server.Conversation
import DistributedCache.Server.RespReply

/-! The metrics listener beside the workers of the node.  A scraper that reads the bytes of one
connection sees either nothing or the whole text, since the response tells its length, and the text
shows the number of scrapes and a number of requests between the replies that were sent and the
commands that were begun. -/

namespace DistributedCache.Server

open DistributedCache.Core DistributedCache.Metrics DistributedCache.Protocol Lib

/-- The response that `HandleMetricsClient` builds. -/
def metricsResponse (metrics : PrometheusEndpoint) : Bytes :=
  let body := metrics.renderPrometheusMetrics
  ascii "HTTP/1.1 200 OK\r\nContent-Type: text/plain; version=0.0.4\r\n" ++
    (ascii "Content-Length: " ++ toDecimal body.length ++ ascii "\r\n\r\n") ++ body

/-! ### An HTTP client -/

/-- The header lines up to the empty line, at most `fuel`, and what follows them. -/
def readHeaders : Nat → Bytes → Option (List Bytes × Bytes)
  | 0, _ => none
  | fuel + 1, stream =>
    (decodeLine stream).bind fun part =>
      if part.1 = [] then some ([], part.2)
      else (readHeaders fuel part.2).map fun r => (part.1 :: r.1, r.2)

/-- The length that a header line gives, if it is the line that gives one. -/
def contentLength (header : Bytes) : Option Nat :=
  let digits := header.drop (ascii "Content-Length: ").length
  if (ascii "Content-Length: ").isPrefixOf header ∧ digits ≠ [] ∧ digits.all isDigit then
    some (digitsValue digits)
  else none

/-- The body of a response with status 200, if all of it has come. -/
def readBody (stream : Bytes) : Option Bytes :=
  (readHeaders stream.length stream).bind fun part =>
    (part.1.findSome? contentLength).bind fun length =>
      if part.1.head? = some (ascii "HTTP/1.1 200 OK") ∧ length ≤ part.2.length then
        some (part.2.take length)
      else none

theorem findCrlf_more {stream : Bytes} {n : Nat} (more : Bytes) (found : findCrlf stream = some n) :
    findCrlf (stream ++ more) = some n := by
  induction stream generalizing n with
  | nil => cases found
  | cons b stream ih =>
    rw [findCrlf] at found
    rw [List.cons_append, findCrlf]
    cases stream with
    | nil => simp [findCrlf, crlf] at found
    | cons c stream =>
      have same : (b :: (c :: stream ++ more)).take 2 = (b :: c :: stream).take 2 := rfl
      by_cases here : (b :: c :: stream).take 2 = crlf
      · rw [if_pos here] at found
        rw [if_pos (same.trans here), found]
      · rw [if_neg here] at found
        obtain ⟨m, later, rfl⟩ := Option.map_eq_some_iff.mp found
        rw [if_neg (same ▸ here), ih later]
        rfl

theorem decodeLine_more {stream line rest : Bytes} (more : Bytes)
    (decoded : decodeLine stream = some (line, rest)) :
    decodeLine (stream ++ more) = some (line, rest ++ more) := by
  obtain ⟨n, found, same⟩ := Option.map_eq_some_iff.mp decoded
  obtain ⟨tail, split⟩ := findCrlf_sound found
  have long : n + 2 ≤ stream.length := by
    have := congrArg List.length split
    simp [crlf] at this
    omega
  cases same
  rw [decodeLine, findCrlf_more more found, Option.map_some,
    List.take_append_of_le_length (by omega), List.drop_append_of_le_length long]

theorem readHeaders_more {fuel : Nat} {stream rest : Bytes} {headers : List Bytes} (more : Bytes)
    {fuel' : Nat} (enough : fuel ≤ fuel') (read : readHeaders fuel stream = some (headers, rest)) :
    readHeaders fuel' (stream ++ more) = some (headers, rest ++ more) := by
  induction fuel generalizing fuel' stream rest headers with
  | zero => cases read
  | succ fuel ih =>
    obtain ⟨fuel', rfl⟩ : ∃ n, fuel' = n + 1 := ⟨fuel' - 1, by omega⟩
    obtain ⟨⟨line, behind⟩, decoded, next⟩ := Option.bind_eq_some_iff.mp read
    rw [readHeaders, decodeLine_more more decoded, Option.bind_some]
    dsimp only at next ⊢
    split at next
    · rename_i last
      cases next
      rw [if_pos last]
    · rename_i inner
      obtain ⟨⟨lines, tail⟩, later, same⟩ := Option.map_eq_some_iff.mp next
      cases same
      rw [if_neg inner, ih (by omega) later, Option.map_some]

theorem readHeaders_response (metrics : PrometheusEndpoint) :
    readHeaders (metricsResponse metrics).length (metricsResponse metrics) =
      some ([ascii "HTTP/1.1 200 OK", ascii "Content-Type: text/plain; version=0.0.4",
        ascii "Content-Length: " ++ toDecimal metrics.renderPrometheusMetrics.length],
        metrics.renderPrometheusMetrics) := by
  generalize shape : metrics.renderPrometheusMetrics = body
  have text : metricsResponse metrics = ascii "HTTP/1.1 200 OK" ++ crlf ++
      (ascii "Content-Type: text/plain; version=0.0.4" ++ crlf ++
        ((ascii "Content-Length: " ++ toDecimal body.length) ++ crlf ++ ([] ++ crlf ++ body))) := by
    rw [metricsResponse, shape]
    have status : ascii "HTTP/1.1 200 OK\r\nContent-Type: text/plain; version=0.0.4\r\n" =
        ascii "HTTP/1.1 200 OK" ++ crlf ++
          (ascii "Content-Type: text/plain; version=0.0.4" ++ crlf) := rfl
    have blank : ascii "\r\n\r\n" = crlf ++ crlf := rfl
    simp only [status, blank, List.append_assoc, List.nil_append]
  have clean : 13 ∉ ascii "Content-Length: " ++ toDecimal body.length := by
    rw [List.mem_append, not_or]
    exact ⟨by decide, not_mem_toDecimal (by decide)⟩
  obtain ⟨fuel, enough⟩ : ∃ n, (metricsResponse metrics).length = n + 4 := by
    refine ⟨(metricsResponse metrics).length - 4, ?_⟩
    rw [text]
    simp [crlf]
    omega
  rw [enough, text, readHeaders, decodeLine_append _ (by decide), Option.bind_some]
  dsimp only
  rw [if_neg (by decide), readHeaders, decodeLine_append _ (by decide), Option.bind_some]
  dsimp only
  rw [if_neg (by decide), readHeaders, decodeLine_append _ clean, Option.bind_some]
  dsimp only
  rw [if_neg (by simp [ascii]), readHeaders, decodeLine_append _ (by decide), Option.bind_some]
  rfl

theorem contentLength_response (length : Nat) :
    [ascii "HTTP/1.1 200 OK", ascii "Content-Type: text/plain; version=0.0.4",
      ascii "Content-Length: " ++ toDecimal length].findSome? contentLength = some length := by
  have status : contentLength (ascii "HTTP/1.1 200 OK") = none := by decide
  have type : contentLength (ascii "Content-Type: text/plain; version=0.0.4") = none := by decide
  have digits : toDecimal length ≠ [] ∧ (toDecimal length).all isDigit = true :=
    ⟨toDecimal_ne_nil _, List.all_eq_true.mpr fun _ => isDigit_of_mem_toDecimal⟩
  have this : contentLength (ascii "Content-Length: " ++ toDecimal length) = some length := by
    unfold contentLength
    dsimp only
    rw [List.drop_left, if_pos ⟨by simp, digits⟩, digitsValue_toDecimal]
  simp only [List.findSome?_cons, status, type, this]

/-- The bytes that a scraper has received are not a body, or they are the whole one. -/
theorem readBody_sent {metrics : PrometheusEndpoint} {sent body : Bytes}
    (early : sent <+: metricsResponse metrics) (read : readBody sent = some body) :
    body = metrics.renderPrometheusMetrics := by
  obtain ⟨more, whole⟩ := early
  obtain ⟨⟨headers, rest⟩, front, next⟩ := Option.bind_eq_some_iff.mp read
  obtain ⟨length, told, last⟩ := Option.bind_eq_some_iff.mp next
  have fuel : sent.length ≤ (metricsResponse metrics).length := by
    rw [← whole, List.length_append]
    omega
  have all := readHeaders_more more fuel front
  rw [whole, readHeaders_response] at all
  obtain ⟨rfl, split⟩ := Prod.mk.inj (Option.some.inj all)
  rw [contentLength_response] at told
  cases told
  dsimp only at last
  split at last
  · rename_i arrived
    have complete : more = [] := by
      have := congrArg List.length split
      rw [List.length_append] at this
      exact List.eq_nil_of_length_eq_zero (by omega)
    cases last
    rw [complete, List.append_nil] at split
    rw [← split, List.take_length]
  · cases last

theorem readBody_whole (metrics : PrometheusEndpoint) :
    readBody (metricsResponse metrics) = some metrics.renderPrometheusMetrics := by
  rw [readBody, readHeaders_response, Option.bind_some]
  dsimp only
  rw [contentLength_response, Option.bind_some, if_pos ⟨rfl, Nat.le_refl _⟩, List.take_length]

/-! ### The listener and the workers -/

/-- Where `RunMetricsServer` stands. -/
inductive Scraper
  /-- It is about to load the flag. -/
  | polling
  /-- It is about to call `select` and `accept`. -/
  | selecting
  /-- It is about to count the scrape. -/
  | accepted
  /-- It is in `HandleMetricsClient`. -/
  | handling
  | closed
deriving DecidableEq

/-- What comes of `select` and `accept`: a connection, a reason to try again, or an error. -/
inductive Select
  | ready
  | again
  | failed
deriving DecidableEq

inductive ObservedInput
  | worker (input : Input)
  /-- The next step of the listener's own code. -/
  | proceed
  | select (outcome : Select)
  /-- `HandleMetricsClient` reads the request, renders the metrics, and sends them. -/
  | respond (fault : Option Nat)

inductive ObservedEvent
  | worker (event : NodeEvent)
  | scraped
  | responded (sent : Bytes)
  | silent

/-- The node with its metrics. -/
structure ObservedNode (cfg : Config) where
  node : CacheNode cfg
  metrics : PrometheusEndpoint

def bootstrapOk : PrometheusEndpoint.Call :=
  .setGauge (ascii "cache_bootstrap_ok") 1 (ascii "Cache node bootstrap status")

def respRequest : PrometheusEndpoint.Call :=
  .incrementCounter (ascii "cache_resp_requests_total") 1 (ascii "Total RESP requests")

def metricsRequest : PrometheusEndpoint.Call :=
  .incrementCounter (ascii "cache_metrics_requests_total") 1 (ascii "Total metrics scrapes")

/-- The call of the metrics in a step. -/
def ObservedEvent.call : ObservedEvent → Option PrometheusEndpoint.Call
  | worker .counted => some respRequest
  | scraped => some metricsRequest
  | _ => none

/-- The metrics after a step. -/
def note (metrics : PrometheusEndpoint) (event : ObservedEvent) : PrometheusEndpoint :=
  match event.call with
  | some call => metrics.apply call
  | none => metrics

variable {cfg : Config}

/-- One step of the listener. -/
def Scraper.advance (node : ObservedNode cfg) :
    Scraper → ObservedInput → Option (Scraper × ObservedEvent)
  | polling, .proceed => some (if node.node.stop then closed else selecting, .silent)
  | selecting, .select .ready => some (accepted, .silent)
  | selecting, .select .again => some (polling, .silent)
  | selecting, .select .failed => some (closed, .silent)
  | accepted, .proceed => some (handling, .scraped)
  | handling, .respond fault =>
    some (polling, .responded (sendAll fault (metricsResponse node.metrics)).1)
  | _, _ => none

/-- The workers of a node beside its metrics listener, which is the thread `none`. -/
def observedNode (ι : Type) (cfg : Config) (idleTimeout : Int) :
    Program (Option ι) (ObservedNode cfg) (Worker cfg ⊕ Scraper) ObservedInput ObservedEvent where
  advance i node thread input :=
    match i, thread, input with
    | some _, .inl worker, .worker input =>
      (worker.advance idleTimeout node.node input).map fun r =>
        (⟨r.1, note node.metrics (.worker r.2.2)⟩, .inl r.2.1, .worker r.2.2)
    | none, .inr scraper, input =>
      (scraper.advance node input).map fun r =>
        ({ node with metrics := note node.metrics r.2 }, .inr r.1, r.2)
    | _, _, _ => none

/-- The node when `main` has started its threads. -/
def observedStart (ι : Type) (cfg : Config) :
    Pool (Option ι) (ObservedNode cfg) (Worker cfg ⊕ Scraper) :=
  ⟨⟨⟨.new cfg, 0, false⟩, PrometheusEndpoint.new.apply bootstrapOk⟩,
    fun i => if i.isSome then .inl .waiting else .inr .polling⟩

/-! ### Commands, counts, and replies -/

namespace ObservedEvent

/-- A connection has taken a command off its buffer. -/
def begins : ObservedEvent → Nat
  | worker (.invoked (.resp _)) => 1
  | _ => 0

/-- A worker has counted a request. -/
def counts : ObservedEvent → Nat
  | worker .counted => 1
  | _ => 0

/-- `SendAll` has returned for a reply. -/
def finishes : ObservedEvent → Nat
  | worker (.responded (.resp _)) | worker (.broken ..) => 1
  | _ => 0

/-- The listener has counted a scrape. -/
def scrapes : ObservedEvent → Nat
  | scraped => 1
  | _ => 0

/-- The listener has answered a scrape. -/
def responses : ObservedEvent → Nat
  | responded _ => 1
  | _ => 0

end ObservedEvent

namespace Worker

/-- A handler of the gRPC server serves no command of a connection. -/
def Remote : Worker cfg → Prop
  | handling request _ => ∀ cmd, request ≠ .resp cmd
  | answering answer => ∀ reply, answer ≠ .resp reply
  | _ => True

/-- A command was begun and is not counted yet. -/
def underway : Worker cfg → Nat
  | executing .. | counting .. => 1
  | _ => 0

/-- A command is counted and its reply was not sent yet. -/
def unsent : Worker cfg → Nat
  | replying .. => 1
  | _ => 0

variable (cfg) in
theorem limitFrame_idle (stream : Stream) :
    (limitFrame stream : Worker cfg).Remote ∧
      (limitFrame stream : Worker cfg).underway = 0 ∧
      (limitFrame stream : Worker cfg).unsent = 0 := by
  unfold limitFrame
  split <;> exact ⟨trivial, rfl, rfl⟩

variable (cfg) in
theorem nextFrame_idle (stream : Stream) (consumed : Nat) :
    (nextFrame stream consumed : Worker cfg).Remote ∧
      (nextFrame stream consumed : Worker cfg).underway = 0 ∧
      (nextFrame stream consumed : Worker cfg).unsent = 0 := by
  unfold nextFrame
  dsimp only
  split
  · exact limitFrame_idle cfg _
  · exact ⟨trivial, rfl, rfl⟩

variable (cfg) in
theorem startCommand_underway (stream : Stream) (cmd : RESPCommand) (consumed : Nat) (now : Int) :
    (startCommand stream cmd consumed now : Worker cfg).Remote ∧
      (startCommand stream cmd consumed now : Worker cfg).underway = 1 ∧
      (startCommand stream cmd consumed now : Worker cfg).unsent = 0 := by
  unfold startCommand
  split <;> exact ⟨trivial, rfl, rfl⟩

theorem answerFor_remote {request : Ingress} (remote : ∀ cmd, request ≠ .resp cmd)
    (result : CommandResult) (reply : Bytes) : answerFor request result ≠ .resp reply := by
  cases request with
  | resp cmd => exact absurd rfl (remote cmd)
  | grpcSet request => simp [answerFor]
  | grpcGet request => simp [answerFor]

variable (cfg) in
theorem startCall_remote {request : Ingress} (remote : ∀ cmd, request ≠ .resp cmd) (now : Int) :
    (startCall request now : Worker cfg).Remote ∧
      (startCall request now : Worker cfg).underway = 0 ∧
      (startCall request now : Worker cfg).unsent = 0 := by
  unfold startCall
  split
  · exact ⟨answerFor_remote remote _, rfl, rfl⟩
  · exact ⟨remote, rfl, rfl⟩

/-- A step takes a command from its beginning over the counter to its reply. -/
theorem Advances.balance {node node' : CacheNode cfg} {worker worker' : Worker cfg}
    {event : NodeEvent} (moved : Advances node worker node' worker' event)
    (remote : worker.Remote) :
    worker'.Remote ∧
      worker.underway + (ObservedEvent.worker event).begins =
        worker'.underway + (ObservedEvent.worker event).counts ∧
      worker.unsent + (ObservedEvent.worker event).counts =
        worker'.unsent + (ObservedEvent.worker event).finishes := by
  cases moved with
  | step moved =>
    cases moved with
    | rpc request now other =>
      obtain ⟨remote', idle, empty⟩ := startCall_remote cfg other now
      cases request with
      | resp cmd => exact absurd rfl (other cmd)
      | _ => exact ⟨remote', idle.symm, empty.symm⟩
    | leaveFrames | stuck =>
      obtain ⟨remote', idle, empty⟩ := limitFrame_idle cfg _
      exact ⟨remote', idle.symm, empty.symm⟩
    | @take stream cmd consumed now =>
      obtain ⟨remote', one, empty⟩ := startCommand_underway cfg stream cmd consumed now
      exact ⟨remote', one.symm, empty.symm⟩
    | reply =>
      obtain ⟨remote', idle, empty⟩ := nextFrame_idle cfg _ _
      refine ⟨remote', idle.symm, ?_⟩
      rw [empty]
      rfl
    | handle => exact ⟨remote, rfl, rfl⟩
    | handled => exact ⟨answerFor_remote remote _, rfl, rfl⟩
    | @answer answer =>
      cases answer with
      | resp reply => exact absurd rfl (remote reply)
      | _ => exact ⟨trivial, rfl, rfl⟩
    | _ => exact ⟨trivial, rfl, rfl⟩
  | reorder => exact ⟨remote, rfl, rfl⟩
  | signal => exact ⟨remote, rfl, rfl⟩

end Worker

/-- What a thread of the program may be. -/
def Balances (thread : Worker cfg ⊕ Scraper) : Prop :=
  ∀ worker, thread = .inl worker → worker.Remote

/-- What a thread holds, if it is a worker. -/
def ofWorker (held : Worker cfg → Nat) : Worker cfg ⊕ Scraper → Nat
  | .inl worker => held worker
  | .inr _ => 0

/-- The ways in which the program can move. -/
inductive ObservedSteps {ι : Type} : Option ι → ObservedNode cfg → Worker cfg ⊕ Scraper →
    ObservedNode cfg → Worker cfg ⊕ Scraper → ObservedEvent → Prop
  | worker {i : ι} {node : ObservedNode cfg} {node' : CacheNode cfg} {worker worker' : Worker cfg}
      {event : NodeEvent} : Worker.Advances node.node worker node' worker' event →
      ObservedSteps (some i) node (.inl worker) ⟨node', note node.metrics (.worker event)⟩
        (.inl worker') (.worker event)
  | poll {node : ObservedNode cfg} {scraper scraper' : Scraper} :
      scraper ≠ .handling → scraper' ≠ .handling →
      ObservedSteps none node (.inr scraper) node (.inr scraper') .silent
  | count {node : ObservedNode cfg} :
      ObservedSteps none node (.inr .accepted)
        { node with metrics := node.metrics.apply metricsRequest } (.inr .handling) .scraped
  | respond {node : ObservedNode cfg} {sent : Bytes} :
      ObservedSteps none node (.inr .handling) node (.inr .polling) (.responded sent)

theorem observedNode_sound {ι : Type} {idleTimeout : Int} {i : Option ι}
    {node node' : ObservedNode cfg} {thread thread' : Worker cfg ⊕ Scraper} {input : ObservedInput}
    {event : ObservedEvent}
    (moved : (observedNode ι cfg idleTimeout).advance i node thread input =
      some (node', thread', event)) : ObservedSteps i node thread node' thread' event := by
  simp only [observedNode] at moved
  split at moved
  · obtain ⟨⟨node', worker', shown⟩, advanced, same⟩ := Option.map_eq_some_iff.mp moved
    cases same
    exact .worker (Worker.advance_sound advanced)
  · rename_i scraper input
    obtain ⟨⟨scraper', shown⟩, advanced, same⟩ := Option.map_eq_some_iff.mp moved
    cases same
    unfold Scraper.advance at advanced
    split at advanced
    · cases advanced
      refine .poll (by decide) ?_
      split <;> decide
    · cases advanced
      exact .poll (by decide) (by decide)
    · cases advanced
      exact .poll (by decide) (by decide)
    · cases advanced
      exact .poll (by decide) (by decide)
    · cases advanced
      exact .count
    · cases advanced
      exact .respond
    · cases advanced
  · cases moved

theorem sendAll_prefix (fault : Option Nat) (payload : Bytes) :
    (sendAll fault payload).1 <+: payload := by
  rcases Worker.sendAll_cases fault payload with whole | ⟨part, cut, early, -⟩
  · rw [whole]
  · rw [cut]
    exact early

/-- Only the listener responds, from `HandleMetricsClient`, and what it sends is what `SendAll` has
sent of its response. -/
theorem respond_sound {ι : Type} [DecidableEq ι] {idleTimeout : Int}
    {s t : Pool (Option ι) (ObservedNode cfg) (Worker cfg ⊕ Scraper)}
    {l : Option ι × ObservedInput} {sent : Bytes}
    (moved : (observedNode ι cfg idleTimeout).step s l = some (t, .responded sent)) :
    ∃ fault, l = (none, .respond fault) ∧ s.thread none = .inr .handling ∧
      sent = (sendAll fault (metricsResponse s.shared.metrics)).1 := by
  obtain ⟨i, input⟩ := l
  obtain ⟨node, thread, advanced, -⟩ := Program.step_eq_some.mp moved
  simp only [observedNode] at advanced
  split at advanced
  · obtain ⟨r, -, same⟩ := Option.map_eq_some_iff.mp advanced
    cases same
  · rename_i scraper input stands
    obtain ⟨⟨scraper', event⟩, advanced, same⟩ := Option.map_eq_some_iff.mp advanced
    obtain rfl : event = .responded sent := congrArg (fun r => r.2.2) same
    unfold Scraper.advance at advanced
    split at advanced <;> cases advanced
    exact ⟨_, rfl, stands, rfl⟩
  · cases advanced

/-! ### What a scrape shows -/

/-- The metrics are what the calls so far have left, and the listener has answered every scrape
that it has counted, but for the one in `HandleMetricsClient`. -/
structure Listens {ι : Type} (events : List ObservedEvent)
    (s : Pool (Option ι) (ObservedNode cfg) (Worker cfg ⊕ Scraper)) : Prop where
  metrics : s.shared.metrics =
    PrometheusEndpoint.new.run (bootstrapOk :: events.filterMap ObservedEvent.call)
  listener : ∃ scraper, s.thread none = .inr scraper ∧
    (events.map ObservedEvent.scrapes).sum =
      (events.map ObservedEvent.responses).sum + if scraper = .handling then 1 else 0

section

variable {ι : Type} [DecidableEq ι] {idleTimeout : Int}
  {s t : Pool (Option ι) (ObservedNode cfg) (Worker cfg ⊕ Scraper)} {events : List ObservedEvent}

theorem run_note (calls : List PrometheusEndpoint.Call) (event : ObservedEvent) :
    note (PrometheusEndpoint.new.run calls) event =
      PrometheusEndpoint.new.run (calls ++ event.call.toList) := by
  unfold note
  cases event.call with
  | none => simp
  | some call => exact (PrometheusEndpoint.run_append calls call).symm

theorem Listens.step {l : Option ι × ObservedInput} {event : ObservedEvent}
    (listens : Listens events s)
    (moved : (observedNode ι cfg idleTimeout).step s l = some (t, event)) :
    Listens (events ++ [event]) t := by
  obtain ⟨i, input⟩ := l
  obtain ⟨node, thread, advanced, rfl⟩ := Program.step_eq_some.mp moved
  have calls : ∀ event : ObservedEvent, note s.shared.metrics event =
      PrometheusEndpoint.new.run
        (bootstrapOk :: (events ++ [event]).filterMap ObservedEvent.call) := by
    intro event
    rw [listens.metrics, run_note]
    simp [List.filterMap_append, List.filterMap_cons]
    cases event.call <;> rfl
  obtain ⟨scraper, stands, answered⟩ := listens.listener
  have steps := observedNode_sound advanced
  generalize before : s.thread i = thread' at steps
  cases steps with
  | @worker j node' worker worker' event moved =>
    refine ⟨calls _, scraper, by simpa using stands, ?_⟩
    simpa [ObservedEvent.scrapes, ObservedEvent.responses] using answered
  | @poll _ _ scraper' idle idle' =>
    rw [stands] at before
    cases before
    refine ⟨calls .silent, scraper', by simp, ?_⟩
    simpa [ObservedEvent.scrapes, ObservedEvent.responses, idle, idle'] using answered
  | count =>
    rw [stands] at before
    cases before
    refine ⟨calls .scraped, .handling, by simp, ?_⟩
    simpa [ObservedEvent.scrapes, ObservedEvent.responses] using answered
  | respond =>
    rw [stands] at before
    cases before
    refine ⟨calls (.responded _), .polling, by simp, ?_⟩
    simpa [ObservedEvent.scrapes, ObservedEvent.responses] using answered

end

/-- What a scraper reads after so many scrapes, its own among them, and requests. -/
def scrapeFamilies (scrapes requests : Nat) : List Family :=
  ⟨ascii "cache_bootstrap_ok", ascii "Cache node bootstrap status", .gauge, 1⟩ ::
    ⟨ascii "cache_metrics_requests_total", ascii "Total metrics scrapes", .counter,
      roundSig 10 6 (min scrapes (2 ^ 53))⟩ ::
    if requests = 0 then []
    else [⟨ascii "cache_resp_requests_total", ascii "Total RESP requests", .counter,
      roundSig 10 6 (min requests (2 ^ 53))⟩]

/-- The calls that the threads of the node make. -/
def FromThreads (calls : List PrometheusEndpoint.Call) : Prop :=
  ∀ call ∈ calls, call = respRequest ∨ call = metricsRequest

theorem call_counts (event : ObservedEvent) :
    event.counts = event.call.toList.count respRequest ∧
      event.scrapes = event.call.toList.count metricsRequest ∧ FromThreads event.call.toList := by
  have requests : [respRequest].count respRequest = 1 ∧ [respRequest].count metricsRequest = 0 ∧
      [metricsRequest].count respRequest = 0 ∧ [metricsRequest].count metricsRequest = 1 := by
    decide
  obtain ⟨request, noScrape, noRequest, scrape⟩ := requests
  cases event with
  | worker event =>
    cases event with
    | counted => exact ⟨request.symm, noScrape.symm, fun call => .inl ∘ List.mem_singleton.mp⟩
    | _ => exact ⟨rfl, rfl, fun call member => by cases member⟩
  | scraped => exact ⟨noRequest.symm, scrape.symm, fun call => .inr ∘ List.mem_singleton.mp⟩
  | _ => exact ⟨rfl, rfl, fun call member => by cases member⟩

theorem count_calls (events : List ObservedEvent) :
    FromThreads (events.filterMap ObservedEvent.call) ∧
      (events.filterMap ObservedEvent.call).count respRequest =
        (events.map ObservedEvent.counts).sum ∧
      (events.filterMap ObservedEvent.call).count metricsRequest =
        (events.map ObservedEvent.scrapes).sum := by
  rw [List.filterMap_eq_flatMap_toList, List.count_flatMap, List.count_flatMap]
  refine ⟨fun call member => ?_, ?_, ?_⟩
  · obtain ⟨event, -, calls⟩ := List.mem_flatMap.mp member
    exact (call_counts event).2.2 call calls
  · exact congrArg List.sum (List.map_congr_left fun event _ => (call_counts event).1.symm)
  · exact congrArg List.sum (List.map_congr_left fun event _ => (call_counts event).2.1.symm)

section

variable {calls : List PrometheusEndpoint.Call}

open PrometheusEndpoint

theorem callsFor_request {call other : Call} (pair : ∀ c ∈ calls, c = call ∨ c = other)
    (different : other.name ≠ call.name) (first : bootstrapOk.name ≠ call.name) :
    callsFor call.name (bootstrapOk :: calls) = .replicate (calls.count call) call := by
  have same : ∀ c ∈ calls, decide (c.name = call.name) = (c == call) := by
    intro c member
    rcases pair c member with rfl | rfl
    · simp
    · have unequal : c ≠ call := fun same => different (congrArg Call.name same)
      simp [different, unequal]
  rw [callsFor, List.filter_cons_of_neg (by simpa using first), List.filter_congr same,
    List.filter_beq]

theorem callsFor_other {name : Bytes} (threads : FromThreads calls)
    (others : name ≠ bootstrapOk.name ∧ name ≠ respRequest.name ∧ name ≠ metricsRequest.name) :
    callsFor name (bootstrapOk :: calls) = [] := by
  rw [callsFor, List.filter_eq_nil_iff]
  intro call member
  rcases List.mem_cons.mp member with rfl | later
  · simpa using Ne.symm others.1
  · rcases threads call later with rfl | rfl
    · simpa using Ne.symm others.2.1
    · simpa using Ne.symm others.2.2

theorem callsFor_bootstrap (threads : FromThreads calls) :
    callsFor bootstrapOk.name (bootstrapOk :: calls) = [bootstrapOk] := by
  have noOther : callsFor bootstrapOk.name calls = [] := by
    rw [callsFor, List.filter_eq_nil_iff]
    intro call member
    rcases threads call member with rfl | rfl <;> decide
  rw [callsFor, List.filter_cons_of_pos (by simp)]
  exact congrArg _ noOther

/-- What a scraper reads for the name of a counter. -/
theorem shown_counter (name help : Bytes) (n : Nat) :
    (summary (.replicate n (.incrementCounter name 1 help))).map Metric.family =
      if n = 0 then none
      else some ⟨name, help, .counter, roundSig 10 6 (min n (2 ^ 53))⟩ := by
  cases n with
  | zero => rfl
  | succ n =>
    rw [summary_replicate, Option.map_some, if_neg (Nat.succ_ne_zero n)]
    rfl

theorem mem_scrapeFamilies {scrapes requests : Nat} {family : Family} :
    family ∈ scrapeFamilies scrapes requests ↔
      family = ⟨ascii "cache_bootstrap_ok", ascii "Cache node bootstrap status", .gauge, 1⟩ ∨
      family = ⟨ascii "cache_metrics_requests_total", ascii "Total metrics scrapes", .counter,
        roundSig 10 6 (min scrapes (2 ^ 53))⟩ ∨
      (requests ≠ 0 ∧ family = ⟨ascii "cache_resp_requests_total", ascii "Total RESP requests",
        .counter, roundSig 10 6 (min requests (2 ^ 53))⟩) := by
  unfold scrapeFamilies
  by_cases idle : requests = 0
  · simp [idle]
  · simp [idle]

theorem scrapeFamilies_sorted (scrapes requests : Nat) :
    (scrapeFamilies scrapes requests).Pairwise fun family later => family.name < later.name := by
  have first : ascii "cache_bootstrap_ok" < ascii "cache_metrics_requests_total" := by decide
  have second : ascii "cache_metrics_requests_total" < ascii "cache_resp_requests_total" := by
    decide
  unfold scrapeFamilies
  split
  · simpa using first
  · simpa using ⟨⟨first, first.trans second⟩, second⟩

/-- The metrics show the numbers of the calls. -/
theorem families_eq (threads : FromThreads calls) (counted : 0 < calls.count metricsRequest) :
    (new.run (bootstrapOk :: calls)).metrics.entries.map (fun e => e.2.family) =
      scrapeFamilies (calls.count metricsRequest) (calls.count respRequest) := by
  have bootstrap : (summary (callsFor bootstrapOk.name (bootstrapOk :: calls))).map Metric.family =
      some ⟨ascii "cache_bootstrap_ok", ascii "Cache node bootstrap status", .gauge, 1⟩ := by
    rw [callsFor_bootstrap threads]
    decide
  have scrapes := shown_counter (ascii "cache_metrics_requests_total")
    (ascii "Total metrics scrapes") (calls.count metricsRequest)
  rw [if_neg (Nat.ne_of_gt counted)] at scrapes
  have requests := shown_counter (ascii "cache_resp_requests_total")
    (ascii "Total RESP requests") (calls.count respRequest)
  have forScrapes : callsFor metricsRequest.name (bootstrapOk :: calls) = _ :=
    callsFor_request (fun c member => (threads c member).symm) (by decide) (by decide)
  have forRequests : callsFor respRequest.name (bootstrapOk :: calls) = _ :=
    callsFor_request threads (by decide) (by decide)
  refine List.Perm.eq_of_pairwise (fun family later _ _ below above => absurd below above.not_gt)
    (families_sorted _) (scrapeFamilies_sorted _ _) ?_
  refine (List.perm_ext_iff_of_nodup ((families_sorted _).imp ?_)
    ((scrapeFamilies_sorted _ _).imp ?_)).mpr fun family => ?_
  · exact fun below same => below.ne (congrArg Family.name same)
  · exact fun below same => below.ne (congrArg Family.name same)
  rw [mem_families, mem_scrapeFamilies]
  constructor
  · intro shown
    by_cases isBootstrap : family.name = bootstrapOk.name
    · rw [isBootstrap, bootstrap] at shown
      exact .inl (Option.some.inj shown).symm
    by_cases isScrapes : family.name = metricsRequest.name
    · rw [isScrapes, forScrapes] at shown
      exact .inr (.inl (Option.some.inj (scrapes.symm.trans shown)).symm)
    by_cases isRequests : family.name = respRequest.name
    · rw [isRequests, forRequests] at shown
      have shown := requests.symm.trans shown
      split at shown
      · cases shown
      · rename_i some_requests
        exact .inr (.inr ⟨some_requests, (Option.some.inj shown).symm⟩)
    · rw [callsFor_other threads ⟨isBootstrap, isRequests, isScrapes⟩] at shown
      cases shown
  · rintro (rfl | rfl | ⟨some_requests, rfl⟩)
    · exact bootstrap
    · exact (congrArg (fun l => (summary l).map Metric.family) forScrapes).trans scrapes
    · rw [if_neg some_requests] at requests
      exact (congrArg (fun l => (summary l).map Metric.family) forRequests).trans requests

theorem threads_printable (threads : FromThreads calls) :
    ∀ call ∈ bootstrapOk :: calls, call.Printable := by
  intro call member
  rcases List.mem_cons.mp member with rfl | later
  · exact ⟨by decide, by decide⟩
  · rcases threads call later with rfl | rfl <;> exact ⟨by decide, by decide⟩

end

/-- What the workers bring in and take out over a whole run. -/
theorem observed_le {ι : Type} [DecidableEq ι] {idleTimeout : Int}
    {schedule : List (Option ι × ObservedInput)}
    {s : Pool (Option ι) (ObservedNode cfg) (Worker cfg ⊕ Scraper)} {events : List ObservedEvent}
    (held : Worker cfg → Nat) (brought taken : ObservedEvent → Nat)
    (steps : ∀ (node node' : CacheNode cfg) (worker worker' : Worker cfg) (event : NodeEvent),
      Worker.Advances node worker node' worker' event → worker.Remote →
        held worker + brought (.worker event) = held worker' + taken (.worker event))
    (idle : held .waiting = 0)
    (others : ∀ event, (∀ shown, event ≠ .worker shown) → brought event = taken event)
    (ran : (observedNode ι cfg idleTimeout).run (observedStart ι cfg) schedule =
      some (s, events)) : (events.map taken).sum ≤ (events.map brought).sum := by
  refine (Program.run_balanced Balances (ofWorker held) brought taken ?_ ?_ ?_ ran).2.le
  · intro i node thread input node' thread' event balances advanced
    have moved := observedNode_sound advanced
    cases moved with
    | worker moved =>
      have remote := balances _ rfl
      refine ⟨fun worker same => ?_, steps _ _ _ _ _ moved remote⟩
      cases same
      exact (moved.balance remote).1
    | poll | count | respond =>
      refine ⟨fun worker same => (by cases same), ?_⟩
      rw [ofWorker, ofWorker, others _ fun shown same => (by cases same)]
  · intro i worker same
    cases i with
    | none => cases same
    | some i =>
      cases same
      trivial
  · intro i
    cases i with
    | none => rfl
    | some i => exact idle

section

variable {ι : Type} [DecidableEq ι] {idleTimeout : Int}
  {schedule : List (Option ι × ObservedInput)}
  {s : Pool (Option ι) (ObservedNode cfg) (Worker cfg ⊕ Scraper)} {events : List ObservedEvent}

theorem finishes_le_counts (ran : (observedNode ι cfg idleTimeout).run (observedStart ι cfg)
      schedule = some (s, events)) :
    (events.map ObservedEvent.finishes).sum ≤ (events.map ObservedEvent.counts).sum := by
  refine observed_le Worker.unsent ObservedEvent.counts ObservedEvent.finishes ?_ rfl ?_ ran
  · exact fun node node' worker worker' event moved remote => (moved.balance remote).2.2
  · intro event other
    cases event with
    | worker shown => exact absurd rfl (other shown)
    | _ => rfl

theorem counts_le_begins (ran : (observedNode ι cfg idleTimeout).run (observedStart ι cfg)
      schedule = some (s, events)) :
    (events.map ObservedEvent.counts).sum ≤ (events.map ObservedEvent.begins).sum := by
  refine observed_le Worker.underway ObservedEvent.begins ObservedEvent.counts ?_ rfl ?_ ran
  · exact fun node node' worker worker' event moved remote => (moved.balance remote).2.1
  · intro event other
    cases event with
    | worker shown => exact absurd rfl (other shown)
    | _ => rfl

theorem listens_run (ran : (observedNode ι cfg idleTimeout).run (observedStart ι cfg)
      schedule = some (s, events)) : Listens events s := by
  refine Program.run_induction Listens (fun _ _ _ _ _ listens moved => listens.step moved) ?_ ran
  exact ⟨rfl, .polling, rfl, rfl⟩

end

/-- The `k`-th response of the listener, whatever the connections do at the same time: what a
scraper has received of it is a first part of the response, and all of it if no call of `send` has
failed.  The whole response shows `k` scrapes and the number of the requests that were counted so
far, and a part of it is no response.  The number lies between the replies that were sent and the
commands that were begun. -/
theorem scrape_shows {ι : Type} [DecidableEq ι] {idleTimeout : Int}
    {schedule : List (Option ι × ObservedInput)}
    {s t : Pool (Option ι) (ObservedNode cfg) (Worker cfg ⊕ Scraper)}
    {before : List ObservedEvent} {l : Option ι × ObservedInput} {sent : Bytes}
    (ran : (observedNode ι cfg idleTimeout).run (observedStart ι cfg) schedule =
      some (s, before))
    (moved : (observedNode ι cfg idleTimeout).step s l = some (t, .responded sent)) :
    (∃ fault, l = (none, .respond fault) ∧ sent <+: metricsResponse s.shared.metrics ∧
      (fault = none → sent = metricsResponse s.shared.metrics)) ∧
    (∃ body, readBody (metricsResponse s.shared.metrics) = some body ∧
      Family.readAll body = some (scrapeFamilies ((before.map ObservedEvent.responses).sum + 1)
        (before.map ObservedEvent.counts).sum) ∧
      ∀ received, readBody sent = some received → received = body) ∧
    (before.map ObservedEvent.finishes).sum ≤ (before.map ObservedEvent.counts).sum ∧
    (before.map ObservedEvent.counts).sum ≤ (before.map ObservedEvent.begins).sum := by
  have listens := listens_run ran
  obtain ⟨fault, isRespond, stands, sends⟩ := respond_sound moved
  have early : sent <+: metricsResponse s.shared.metrics := sends ▸ sendAll_prefix fault _
  have whole : fault = none → sent = metricsResponse s.shared.metrics := by
    rintro rfl
    exact sends
  obtain ⟨scraper, same, answered⟩ := listens.listener
  rw [stands] at same
  cases same
  rw [if_pos rfl] at answered
  obtain ⟨threads, requests, scrapes⟩ := count_calls before
  have counted : 0 < (before.filterMap ObservedEvent.call).count metricsRequest := by
    rw [scrapes]
    omega
  refine ⟨⟨fault, isRespond, early, whole⟩,
    ⟨_, readBody_whole _, ?_, fun received => readBody_sent early⟩, finishes_le_counts ran,
    counts_le_begins ran⟩
  rw [listens.metrics, PrometheusEndpoint.readAll_entries (threads_printable threads),
    families_eq threads counted, requests, scrapes, answered]

/-- A scrape while the reply to a counted command was not sent yet. -/
def scrapedSchedule : List (Option Bool × ObservedInput) :=
  [(some true, .worker (.connect 0)), (some true, .worker (.proceed 0)),
    (some true, .worker (.recv (.data (ascii "*1\r\n$4\r\nPING\r\n") 1))),
    (some true, .worker (.proceed 2)), (some true, .worker (.proceed 3)),
    (none, .proceed), (none, .select .ready), (none, .proceed)]

theorem scrapedSchedule_shows : ∃ s t before sent,
    (observedNode Bool openConfig 10).run (observedStart Bool openConfig) scrapedSchedule =
      some (s, before) ∧
    (before.map ObservedEvent.counts).sum = 1 ∧
    (observedNode Bool openConfig 10).step s (none, .respond none) =
      some (t, .responded sent) ∧
    sent = metricsResponse s.shared.metrics ∧
    (∃ body, readBody (metricsResponse s.shared.metrics) = some body ∧
      Family.readAll body = some (scrapeFamilies ((before.map ObservedEvent.responses).sum + 1)
        (before.map ObservedEvent.counts).sum) ∧
      ∀ received, readBody sent = some received → received = body) ∧
    (before.map ObservedEvent.finishes).sum ≤ (before.map ObservedEvent.counts).sum ∧
    (before.map ObservedEvent.counts).sum ≤ (before.map ObservedEvent.begins).sum := by
  have shown : ((observedNode Bool openConfig 10).run (observedStart Bool openConfig)
      scrapedSchedule).map (fun r => (r.1.thread none, (r.2.map ObservedEvent.counts).sum)) =
        some (.inr .handling, 1) := by rfl
  obtain ⟨⟨s, before⟩, ran, same⟩ := Option.map_eq_some_iff.mp shown
  obtain ⟨handles, counted⟩ := Prod.mk.inj same
  have responds : (observedNode Bool openConfig 10).advance none s.shared (s.thread none)
      (.respond none) = some (⟨s.shared.node, s.shared.metrics⟩, .inr .polling,
        .responded (metricsResponse s.shared.metrics)) := by
    rw [handles]
    rfl
  have moved := Program.step_eq_some.mpr ⟨_, _, responds, rfl⟩
  obtain ⟨⟨fault, same, -, whole⟩, shows⟩ := scrape_shows ran moved
  obtain rfl : none = fault := by simpa using same
  exact ⟨s, _, before, _, ran, counted, moved, whole rfl, shows⟩

end DistributedCache.Server

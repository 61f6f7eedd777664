import DistributedCache.Core.Progress
import DistributedCache.Server.Linearization

/-! What one connection sees of the node, whatever the store's limits and whatever the other
connections, the gRPC calls, the signal handler, and the network do: each complete frame, up to the
first one that names no command, is executed once and in order, and each reply belongs to its
command. -/

namespace DistributedCache.Server

open DistributedCache.Core DistributedCache.Protocol Lib

section

variable {ι : Type} [DecidableEq ι]

/-- The events of worker `i`. -/
def eventsOf (i : ι) (events : List (ι × NodeEvent)) : List NodeEvent :=
  events.filterMap fun e => if e.1 = i then some e.2 else none

/-- The bytes that a connection has received. -/
def NodeEvent.input : NodeEvent → Bytes
  | received chunk => chunk
  | _ => []

/-- The command that a connection has taken off its buffer. -/
def NodeEvent.command : NodeEvent → Option RESPCommand
  | invoked (.resp cmd) => some cmd
  | _ => none

/-- The reply that a connection has sent as a whole. -/
def NodeEvent.reply : NodeEvent → Option Bytes
  | responded (.resp reply) => some reply
  | _ => none

/-- The bytes that a connection has sent. -/
def NodeEvent.output : NodeEvent → Bytes
  | responded (.resp reply) => reply
  | broken _ sent | refused sent => sent
  | _ => []

end

/-- The reply is what the interpreter replies to the command on some map. -/
def ReplyFor (cmd : RESPCommand) (reply : Bytes) : Prop := ∃ map, reply = (interpret map cmd).2

/-- What a connection has said and done: the commands `answered` are the first frames of what it
has received, each with its reply, in order.  At most one more command is `pending`, and after the
replies at most a part of its reply was sent, or of the line for a frame that is too long. -/
structure Conversation (events : List NodeEvent) (answered pending : List RESPCommand)
    (rest tail : Bytes) : Prop where
  frames : respFraming.Takes (events.flatMap NodeEvent.input) (answered ++ pending) rest
  commands : events.filterMap NodeEvent.command = answered ++ pending
  one : pending.length ≤ 1
  replies : List.Forall₂ ReplyFor answered (events.filterMap NodeEvent.reply)
  output : events.flatMap NodeEvent.output =
    (events.filterMap NodeEvent.reply).flatten ++ tail
  tail : tail = [] ∨
    (∃ cmd reply, pending = [cmd] ∧ ReplyFor cmd reply ∧ tail <+: reply ∧ tail ≠ reply) ∨
      (pending = [] ∧ kMaxRespFrameBytes < rest.length ∧ tail <+: kRefusal)

/-- The call of the store is one that the command makes. -/
def Awaits {cfg : Config} (cmd : RESPCommand) (call : Call cfg) : Prop :=
  (call.inSet = true ∧ ReplyFor cmd (encodeResult setResult)) ∨
    ((∃ key, call = .getShared key ∨ call = .getExclusive key) ∧
      ∀ value, ReplyFor cmd (encodeResult (getResult value)))

variable {cfg : Config}

/-- What a worker has said, by where it stands. -/
def Worker.Talks (stop : Bool) (events : List NodeEvent) : Worker cfg → Prop
  | waiting => Conversation events [] [] [] []
  | handling request _ => Conversation events [] [] [] [] ∧ ∀ cmd, request ≠ .resp cmd
  | answering answer => Conversation events [] [] [] [] ∧ ∀ reply, answer ≠ .resp reply
  | outer stream => ∃ answered, Conversation events answered [] stream.buffer [] ∧
      (stop = true ∨ respFraming.cut stream.buffer = none)
  | receiving stream => ∃ answered, Conversation events answered [] stream.buffer [] ∧
      respFraming.cut stream.buffer = none
  | inner stream => ∃ answered, Conversation events answered [] stream.buffer []
  | executing stream cmd consumed call => ∃ answered,
      Conversation events answered [cmd] (stream.buffer.drop consumed) [] ∧ Awaits cmd call
  | counting stream consumed reply | replying stream consumed reply => ∃ answered cmd,
      Conversation events answered [cmd] (stream.buffer.drop consumed) [] ∧ ReplyFor cmd reply
  | refusing => ∃ answered rest, Conversation events answered [] rest [] ∧
      kMaxRespFrameBytes < rest.length
  | closed => ∃ answered pending rest tail, Conversation events answered pending rest tail

theorem awaits_of_serves {cmd : RESPCommand} {call : Call cfg}
    (serves : Serves (.resp cmd) call) : Awaits cmd call := by
  cases call with
  | setSection key value expiresAt now =>
    refine .inl ⟨rfl, fun _ => none, ?_⟩
    have effect := congrArg Prod.snd (serves.2 fun _ => none)
    simp only [interpretRequest, answerFor, Answer.resp.injEq] at effect
    exact effect.symm
  | getShared key =>
    refine .inr ⟨⟨key, .inl rfl⟩, fun value => ⟨fun _ => value, ?_⟩⟩
    have effect := congrArg Prod.snd (serves fun _ => value)
    simp only [interpretRequest, answerFor, Answer.resp.injEq] at effect
    exact effect.symm
  | getExclusive key =>
    refine .inr ⟨⟨key, .inr rfl⟩, fun value => ⟨fun _ => value, ?_⟩⟩
    have effect := congrArg Prod.snd (serves fun _ => value)
    simp only [interpretRequest, answerFor, Answer.resp.injEq] at effect
    exact effect.symm
  | _ => exact absurd serves id

/-- A step of a call for a command is followed by another call for it, or by its reply. -/
theorem Awaits.proceed {cmd : RESPCommand} {call call' : Call cfg}
    {store store' : ConcurrentStore cfg} {clock : Int} {event : Event} (awaits : Awaits cmd call)
    (moved : call.proceed store clock = some (store', call', event)) :
    (finishCommand call' event = none → Awaits cmd call') ∧
      ∀ result, finishCommand call' event = some result → ReplyFor cmd (encodeResult result) := by
  rcases awaits with ⟨inSet, reply⟩ | ⟨⟨key, rfl | rfl⟩, reply⟩
  · obtain ⟨rfl | inSet', silent⟩ := Call.proceed_setting inSet moved
    · have finished : finishCommand (.idle : Call cfg) event = some setResult := by
        cases event <;> first | rfl | exact absurd rfl (silent _ _ _)
      rw [finished]
      exact ⟨fun unfinished => absurd unfinished (by simp),
        fun result same => Option.some.inj same ▸ reply⟩
    · have unfinished : finishCommand call' event = none := by
        cases event <;> first | exact absurd rfl (silent _ _ _) | (cases call' <;> trivial)
      rw [unfinished]
      exact ⟨fun _ => .inl ⟨inSet', reply⟩, fun result same => absurd same (by simp)⟩
  · simp only [Call.proceed] at moved
    split at moved <;> cases moved
    · exact ⟨fun unfinished => absurd unfinished (by simp [finishCommand]),
        fun result same => Option.some.inj same ▸ reply _⟩
    · exact ⟨fun _ => .inr ⟨⟨key, .inr rfl⟩, reply⟩,
        fun result same => absurd same (by simp [finishCommand])⟩
  · cases moved
    exact ⟨fun unfinished => absurd unfinished (by simp [finishCommand]),
        fun result same => Option.some.inj same ▸ reply _⟩

/-! ### Steps of a conversation -/

namespace Conversation

variable {events : List NodeEvent} {answered pending : List RESPCommand} {rest tail : Bytes}

theorem start : Conversation [] [] [] [] [] :=
  ⟨.nil, rfl, Nat.zero_le 1, .nil, rfl, .inl rfl⟩

/-- An event that is not part of the conversation. -/
theorem quiet {event : NodeEvent} (talk : Conversation events answered pending rest tail)
    (input : event.input = []) (command : event.command = none) (reply : event.reply = none)
    (output : event.output = []) :
    Conversation (events ++ [event]) answered pending rest tail where
  frames := by simpa [input] using talk.frames
  commands := by simpa [command] using talk.commands
  one := talk.one
  replies := by simpa [reply] using talk.replies
  output := by simpa [reply, output] using talk.output
  tail := talk.tail

theorem receive (talk : Conversation events answered [] rest []) (chunk : Bytes) :
    Conversation (events ++ [.received chunk]) answered [] (rest ++ chunk) [] where
  frames := by simpa [NodeEvent.input] using talk.frames.append chunk
  commands := by simpa [List.filterMap_cons, NodeEvent.command] using talk.commands
  one := talk.one
  replies := by simpa [List.filterMap_cons, NodeEvent.reply] using talk.replies
  output := by simpa [List.filterMap_cons, NodeEvent.reply, NodeEvent.output] using talk.output
  tail := .inl rfl

theorem take {cmd : RESPCommand} {left : Bytes} (talk : Conversation events answered [] rest [])
    (head : respFraming.cut rest = some (cmd, left)) :
    Conversation (events ++ [.invoked (.resp cmd)]) answered [cmd] left [] where
  frames := by
    have frames := talk.frames
    rw [List.append_nil] at frames
    simpa [NodeEvent.input] using frames.snoc head
  commands := by
    have commands := talk.commands
    rw [List.append_nil] at commands
    simp [NodeEvent.command, commands]
  one := Nat.le_refl 1
  replies := by simpa [List.filterMap_cons, NodeEvent.reply] using talk.replies
  output := by simpa [List.filterMap_cons, NodeEvent.reply, NodeEvent.output] using talk.output
  tail := .inl rfl

theorem reply {cmd : RESPCommand} {reply : Bytes}
    (talk : Conversation events answered [cmd] rest []) (replyFor : ReplyFor cmd reply) :
    Conversation (events ++ [.responded (.resp reply)]) (answered ++ [cmd]) [] rest [] where
  frames := by simpa [NodeEvent.input] using talk.frames
  commands := by simpa [List.filterMap_cons, NodeEvent.command] using talk.commands
  one := Nat.zero_le 1
  replies := by
    rw [List.filterMap_append]
    exact List.rel_append talk.replies (.cons replyFor .nil)
  output := by
    have output := talk.output
    rw [List.append_nil] at output
    simp [NodeEvent.reply, NodeEvent.output, output]
  tail := .inl rfl

theorem lose {cmd : RESPCommand} {reply sent : Bytes}
    (talk : Conversation events answered [cmd] rest []) (replyFor : ReplyFor cmd reply)
    (early : sent <+: reply) (short : sent ≠ reply) :
    Conversation (events ++ [.broken reply sent]) answered [cmd] rest sent where
  frames := by simpa [NodeEvent.input] using talk.frames
  commands := by simpa [List.filterMap_cons, NodeEvent.command] using talk.commands
  one := talk.one
  replies := by simpa [List.filterMap_cons, NodeEvent.reply] using talk.replies
  output := by
    have output := talk.output
    rw [List.append_nil] at output
    simp [List.filterMap_cons, NodeEvent.reply, NodeEvent.output, output]
  tail := .inr (.inl ⟨cmd, reply, rfl, replyFor, early, short⟩)

theorem refuse {sent : Bytes} (talk : Conversation events answered [] rest [])
    (long : kMaxRespFrameBytes < rest.length) (early : sent <+: kRefusal) :
    Conversation (events ++ [.refused sent]) answered [] rest sent where
  frames := by simpa [NodeEvent.input] using talk.frames
  commands := by simpa [List.filterMap_cons, NodeEvent.command] using talk.commands
  one := talk.one
  replies := by simpa [List.filterMap_cons, NodeEvent.reply] using talk.replies
  output := by
    have output := talk.output
    rw [List.append_nil] at output
    simp [List.filterMap_cons, NodeEvent.reply, NodeEvent.output, output]
  tail := .inr (.inr ⟨rfl, long, early⟩)

end Conversation

namespace Worker

variable {stop : Bool} {events : List NodeEvent}

theorem limitFrame_talks {stream : Stream} {answered : List RESPCommand}
    (talk : Conversation events answered [] stream.buffer [])
    (done : stop = true ∨ respFraming.cut stream.buffer = none) :
    (limitFrame stream : Worker cfg).Talks stop events := by
  unfold limitFrame
  split
  · rename_i long
    exact ⟨answered, _, talk, long⟩
  · exact ⟨answered, talk, done⟩

theorem nextFrame_talks {stream : Stream} {consumed : Nat} {answered : List RESPCommand}
    (talk : Conversation events answered [] (stream.buffer.drop consumed) []) :
    (nextFrame stream consumed : Worker cfg).Talks stop events := by
  unfold nextFrame
  dsimp only
  split
  · rename_i empty
    exact limitFrame_talks talk (.inr (by rw [empty]; exact Framing.cut_nil))
  · exact ⟨answered, talk⟩

/-- What a worker has said is kept by events that keep the conversation, and by a store to the
flag. -/
theorem Talks.mono {worker : Worker cfg} {stop' : Bool} {events' : List NodeEvent}
    (talks : worker.Talks stop events) (stays : stop = true → stop' = true)
    (keeps : ∀ answered pending rest tail, Conversation events answered pending rest tail →
      Conversation events' answered pending rest tail) : worker.Talks stop' events' := by
  cases worker with
  | waiting => exact keeps _ _ _ _ talks
  | outer stream =>
    obtain ⟨answered, talk, done⟩ := talks
    exact ⟨answered, keeps _ _ _ _ talk, done.imp_left stays⟩
  | inner stream =>
    obtain ⟨answered, talk⟩ := talks
    exact ⟨answered, keeps _ _ _ _ talk⟩
  | receiving stream | executing stream cmd consumed call =>
    obtain ⟨answered, talk, more⟩ := talks
    exact ⟨answered, keeps _ _ _ _ talk, more⟩
  | counting stream consumed reply | replying stream consumed reply | refusing =>
    obtain ⟨answered, other, talk, more⟩ := talks
    exact ⟨answered, other, keeps _ _ _ _ talk, more⟩
  | closed =>
    obtain ⟨answered, pending, rest, tail, talk⟩ := talks
    exact ⟨answered, pending, rest, tail, keeps _ _ _ _ talk⟩
  | handling request call | answering answer => exact ⟨keeps _ _ _ _ talks.1, talks.2⟩

/-- A step keeps what a worker has said in line with where it stands. -/
theorem Talks.advance {node node' : CacheNode cfg} {worker worker' : Worker cfg}
    {event : NodeEvent} (talks : worker.Talks node.stop events)
    (moved : Advances node worker node' worker' event) :
    worker'.Talks node'.stop (events ++ [event]) := by
  cases moved with
  | step moved =>
    cases moved with
    | connect now =>
      exact ⟨[], talks.quiet rfl rfl rfl rfl, .inr Framing.cut_nil⟩
    | rpc request now remote =>
      have talk : Conversation (events ++ [.invoked request]) [] [] [] [] := by
        refine talks.quiet rfl ?_ rfl rfl
        cases request with
        | resp cmd => exact absurd rfl (remote cmd)
        | _ => rfl
      unfold startCall
      split
      · refine ⟨talk, fun reply => ?_⟩
        cases request with
        | resp cmd => exact absurd rfl (remote cmd)
        | _ => nofun
      · exact ⟨talk, remote⟩
    | leave =>
      obtain ⟨answered, talk, -⟩ := talks
      exact ⟨answered, [], _, [], talk.quiet rfl rfl rfl rfl⟩
    | stay running =>
      obtain ⟨answered, talk, done⟩ := talks
      exact ⟨answered, talk.quiet rfl rfl rfl rfl, done.resolve_left (by simp [running])⟩
    | hangUp =>
      obtain ⟨answered, talk, -⟩ := talks
      exact ⟨answered, [], _, [], talk.quiet rfl rfl rfl rfl⟩
    | again =>
      obtain ⟨answered, talk, stuck⟩ := talks
      exact ⟨answered, talk.quiet rfl rfl rfl rfl, .inr stuck⟩
    | data chunk now nonempty =>
      obtain ⟨answered, talk, -⟩ := talks
      exact ⟨answered, talk.receive chunk⟩
    | leaveFrames stopped =>
      obtain ⟨answered, talk⟩ := talks
      exact limitFrame_talks (talk.quiet rfl rfl rfl rfl) (.inl stopped)
    | stuck running head =>
      obtain ⟨answered, talk⟩ := talks
      exact limitFrame_talks (talk.quiet rfl rfl rfl rfl) (.inr head)
    | @take stream cmd consumed now running head =>
      obtain ⟨answered, talk⟩ := talks
      have serves := beginCommand_serves cfg cmd now
      unfold startCommand
      cases begun : (beginCommand cmd.name cmd.args now : CommandResult ⊕ Call cfg) with
      | inl result =>
        simp only [begun] at serves
        refine ⟨answered, cmd, talk.take head, fun _ => none, ?_⟩
        rw [serves]
      | inr call =>
        simp only [begun] at serves
        exact ⟨answered, talk.take head, awaits_of_serves serves⟩
    | execute clock ran unfinished =>
      obtain ⟨answered, talk, awaits⟩ := talks
      exact ⟨answered, talk.quiet rfl rfl rfl rfl, (awaits.proceed ran).1 unfinished⟩
    | executed clock ran finished =>
      obtain ⟨answered, talk, awaits⟩ := talks
      exact ⟨answered, _, talk.quiet rfl rfl rfl rfl, (awaits.proceed ran).2 _ finished⟩
    | count =>
      obtain ⟨answered, cmd, talk, replyFor⟩ := talks
      exact ⟨answered, cmd, talk.quiet rfl rfl rfl rfl, replyFor⟩
    | reply =>
      obtain ⟨answered, cmd, talk, replyFor⟩ := talks
      exact nextFrame_talks (talk.reply replyFor)
    | fail early short =>
      obtain ⟨answered, cmd, talk, replyFor⟩ := talks
      exact ⟨answered, [cmd], _, _, talk.lose replyFor early short⟩
    | refuse early =>
      obtain ⟨answered, rest, talk, long⟩ := talks
      exact ⟨answered, [], rest, _, talk.refuse long early⟩
    | handle clock ran unfinished =>
      exact ⟨talks.1.quiet rfl rfl rfl rfl, talks.2⟩
    | @handled request call call' store event result clock ran finished =>
      refine ⟨talks.1.quiet rfl rfl rfl rfl, fun reply => ?_⟩
      cases request with
      | resp cmd => exact absurd rfl (talks.2 cmd)
      | _ => nofun
    | @answer answer =>
      cases answer with
      | resp reply => exact absurd rfl (talks.2 reply)
      | _ => exact talks.1.quiet rfl rfl rfl rfl
  | reorder perm => exact talks.mono id fun _ _ _ _ talk => talk.quiet rfl rfl rfl rfl
  | signal => exact talks.mono (fun _ => rfl) fun _ _ _ _ talk => talk.quiet rfl rfl rfl rfl

/-- The flag is never cleared. -/
theorem advance_stop {node node' : CacheNode cfg} {worker worker' : Worker cfg} {event : NodeEvent}
    (moved : Advances node worker node' worker' event) (stopped : node.stop = true) :
    node'.stop = true := by
  cases moved with
  | step moved => cases moved <;> exact stopped
  | reorder => exact stopped
  | signal => rfl

/-- What holds at the end of `Talks`: some conversation. -/
theorem Talks.conversation {worker : Worker cfg} (talks : worker.Talks stop events) :
    ∃ answered pending rest tail, Conversation events answered pending rest tail := by
  cases worker with
  | waiting => exact ⟨_, _, _, _, talks⟩
  | inner stream => exact ⟨_, _, _, _, talks.choose_spec⟩
  | outer stream | receiving stream | executing stream cmd consumed call =>
    obtain ⟨answered, talk, -⟩ := talks
    exact ⟨_, _, _, _, talk⟩
  | counting stream consumed reply | replying stream consumed reply | refusing =>
    obtain ⟨answered, other, talk, -⟩ := talks
    exact ⟨_, _, _, _, talk⟩
  | closed => exact talks
  | handling request call | answering answer => exact ⟨_, _, _, _, talks.1⟩

end Worker

section

variable {ι : Type} [DecidableEq ι]

theorem eventsOf_snoc (i j : ι) (events : List (ι × NodeEvent)) (event : NodeEvent) :
    eventsOf i (events ++ [(j, event)]) =
      if j = i then eventsOf i events ++ [event] else eventsOf i events := by
  unfold eventsOf
  rw [List.filterMap_append]
  by_cases same : j = i <;> simp [same]

/-- After every run of the node, each connection has a conversation with its client: the commands
that it has executed are the first frames of what it has received, each executed once and in
order, each reply belongs to its command, and nothing else was sent, except at the end.  A
connection that waits in `recv` has answered every complete frame that it has received before the
first one with an empty command name: that one stays at the head of the buffer. -/
theorem cacheNode_conversations {idleTimeout : Int} {schedule : List (ι × Input)}
    {after : Pool ι (CacheNode cfg) (Worker cfg)} {events : List (ι × NodeEvent)}
    (ran : (cacheNode ι cfg idleTimeout).run (nodeStart ι cfg) schedule = some (after, events))
    (i : ι) :
    (∃ answered pending rest tail, Conversation (eventsOf i events) answered pending rest tail) ∧
      ∀ stream, after.thread i = .receiving stream →
        ∃ answered, Conversation (eventsOf i events) answered [] stream.buffer [] ∧
          respFraming.Splits ((eventsOf i events).flatMap NodeEvent.input) answered
            stream.buffer := by
  have talks : (after.thread i).Talks after.shared.stop (eventsOf i events) := by
    refine Program.run_induction (fun events (s : Pool ι (CacheNode cfg) (Worker cfg)) =>
      ∀ i, (s.thread i).Talks s.shared.stop (eventsOf i events)) ?_ ?_ ran i
    · rintro events s ⟨j, input⟩ t event talks moved i
      obtain ⟨node, worker, advanced, rfl⟩ := Program.step_eq_some.mp moved
      obtain ⟨⟨node', worker', shown⟩, moves, same⟩ := Option.map_eq_some_iff.mp advanced
      cases same
      have step := Worker.advance_sound moves
      rw [eventsOf_snoc]
      by_cases same : j = i
      · subst same
        simpa using (talks j).advance step
      · simpa [same, Ne.symm same] using
          (talks i).mono (Worker.advance_stop step) fun _ _ _ _ talk => talk
    · exact fun _ => Conversation.start
  refine ⟨talks.conversation, fun stream receiving => ?_⟩
  rw [receiving] at talks
  obtain ⟨answered, talk, stuck⟩ := talks
  have frames := talk.frames
  rw [List.append_nil] at frames
  exact ⟨answered, talk, frames.splits stuck⟩

theorem mixedSchedule_conversations : ∃ after events,
    (cacheNode Bool openConfig 10).run (nodeStart Bool openConfig)
        (mixedSchedule ++ [(false, .proceed 8)]) = some (after, events) ∧
      after.thread false = .receiving ⟨[], 1⟩ ∧
      (∃ answered pending rest tail,
        Conversation (eventsOf false events) answered pending rest tail) ∧
      ∃ answered, Conversation (eventsOf false events) answered [] [] [] ∧
        respFraming.Splits ((eventsOf false events).flatMap NodeEvent.input) answered [] := by
  have ends : ((cacheNode Bool openConfig 10).run (nodeStart Bool openConfig)
    (mixedSchedule ++ [(false, .proceed 8)])).map (fun r => r.1.thread false) =
      some (.receiving ⟨[], 1⟩) := by rfl
  obtain ⟨⟨after, events⟩, ran, waits⟩ := Option.map_eq_some_iff.mp ends
  have talks := cacheNode_conversations ran false
  exact ⟨after, events, ran, waits, talks.1, talks.2 _ waits⟩

end

end DistributedCache.Server

import DistributedCache.Server.RespClient

/-! What a client of the RESP server sees, in terms of the bytes that it sends and not of the chunks
in which they arrive. -/

namespace DistributedCache.Server

open DistributedCache.Core DistributedCache.Protocol Lib

variable {cfg : Config}

/-- What a connection on which the chunks arrive has done to the store and sent. -/
structure Session (store : ConcurrentStore cfg) (chunks : List Bytes) (after : Client cfg) :
    Prop where
  receives : respFraming.Receives kMaxRespFrameBytes [] chunks (after.log.map Prod.fst) after.buffer
    !after.isOpen
  executes : Executes store after.log after.store
  replied : after.sent =
    after.log.map Prod.snd ++ if after.isOpen then [] else [ascii "-ERR invalid command\r\n"]

theorem handleRespClient_session {env : Env} (calm : env.Calm) {Good : ConcurrentStore cfg → Prop}
    (total : ∀ store cmd clock, Good store →
      ∃ after reply, executeCommand cmd store clock = some (after, reply) ∧ Good after)
    {store : ConcurrentStore cfg} (good : Good store) {now : Int} {outcomes : List Recv}
    {chunks : List Bytes} (delivers : Delivers env.idleTimeout now outcomes chunks) :
    ∃ after, handleRespClient env store now outcomes = some after ∧ Session store chunks after := by
  obtain ⟨cmds, r, gaveUp, receives⟩ :=
    Framing.Receives.exists respFraming kMaxRespFrameBytes [] chunks
  obtain ⟨after, log, ends, rfl, served⟩ := Client.serve_receives calm total
    ⟨store, [], [], [], 0, now, 0, true⟩ good rfl delivers receives
  have logged : after.log = log := served.logged
  have closed : gaveUp = !after.isOpen := by rw [served.isOpen, Bool.not_not]
  refine ⟨after, ends, ⟨?_, ?_, ?_⟩⟩
  · rw [logged, served.buffer, ← closed]
    exact receives
  · rw [logged]
    exact served.executes
  · rw [served.replied, logged, closed]
    cases after.isOpen <;> rfl

/-- On an unbounded store without expiring entries a connection acts as the interpreter. -/
theorem Executes.interpret (unbounded : cfg.maxEntries = 0) {store after : ConcurrentStore cfg}
    {log : List (RESPCommand × Bytes)} (executes : Executes store log after)
    (persistent : store.Persistent) :
    log.map Prod.snd = (interpretAll store.content (log.map Prod.fst)).2 ∧
      after.content = (interpretAll store.content (log.map Prod.fst)).1 := by
  induction executes with
  | nil => exact ⟨rfl, rfl⟩
  | @cons store cmd clock mid reply log after ran _ ih =>
    obtain ⟨mid', ran', persistent', content⟩ :=
      executeCommand_interpret unbounded persistent cmd clock
    rw [ran] at ran'
    cases ran'
    obtain ⟨replies, contents⟩ := ih persistent'
    simp only [List.map_cons, interpretAll, ← content]
    exact ⟨by rw [replies], contents⟩

theorem executeCommand_persistent (unbounded : cfg.maxEntries = 0) (store : ConcurrentStore cfg)
    (cmd : RESPCommand) (clock : Nat → Int) (persistent : store.Persistent) :
    ∃ after reply, executeCommand cmd store clock = some (after, reply) ∧ after.Persistent := by
  obtain ⟨after, ran, persistent', -⟩ := executeCommand_interpret unbounded persistent cmd clock
  exact ⟨after, _, ran, persistent'⟩

theorem delivers_data (idleTimeout last now : Int) (chunks : List Bytes) :
    Delivers idleTimeout last (chunks.map (Recv.data · now)) chunks := by
  induction chunks generalizing last with
  | nil => exact .nil
  | cons chunk chunks ih => exact .data (ih now)

/-! ### Frames on the wire -/

theorem splits_named {s r : Bytes} {cmds : List RESPCommand}
    (splits : respFraming.Splits s cmds r) : ∀ cmd ∈ cmds, cmd.name ≠ [] := by
  induction splits with
  | stuck => simp
  | next taken _ ih =>
    simp only [List.mem_cons, forall_eq_or_imp]
    exact ⟨(cut_eq_some taken).1, ih⟩

theorem splits_frames {frames : List (Bytes × RESPCommand)}
    (valid : ∀ f ∈ frames, Frame f.1 (f.2.name :: f.2.args)) (named : ∀ f ∈ frames, f.2.name ≠ []) :
    respFraming.Splits (frames.map Prod.fst).flatten (frames.map Prod.snd) [] := by
  induction frames with
  | nil => exact .stuck Framing.cut_nil
  | cons f frames ih =>
    simp only [List.mem_cons, forall_eq_or_imp] at valid named
    exact .next (cut_frame valid.1 named.1 _) (ih valid.2 named.2)

theorem short_frames {frames : List (Bytes × RESPCommand)}
    (valid : ∀ f ∈ frames, Frame f.1 (f.2.name :: f.2.args) ∧ f.1.length ≤ kMaxRespFrameBytes) :
    respFraming.Short kMaxRespFrameBytes (frames.map Prod.fst).flatten := by
  refine Framing.short_flatten fun bytes member => ?_
  obtain ⟨f, source, rfl⟩ := List.mem_map.mp member
  obtain ⟨frame, short⟩ := valid f source
  exact ⟨short, fun t cmd rest taken => (cut_frame_eq_some frame taken).1⟩

namespace Session

variable {store : ConcurrentStore cfg} {chunks : List Bytes} {after : Client cfg}

/-- A connection on which frames with names arrive executes them all. -/
theorem all_frames (session : Session store chunks after) {frames : List (Bytes × RESPCommand)}
    (stream : chunks.flatten = (frames.map Prod.fst).flatten)
    (valid : ∀ f ∈ frames, Frame f.1 (f.2.name :: f.2.args) ∧ f.1.length ≤ kMaxRespFrameBytes)
    (named : ∀ f ∈ frames, f.2.name ≠ []) :
    after.log.map Prod.fst = frames.map Prod.snd ∧ after.sent = after.log.map Prod.snd ∧
      after.buffer = [] ∧ after.isOpen = true := by
  have short := short_frames valid
  rw [← stream] at short
  obtain ⟨left, splits, gaveUp⟩ := session.receives.short short
  have whole := splits_frames (fun f member => (valid f member).1) named
  rw [← stream] at whole
  obtain ⟨executed, rfl⟩ := splits.unique whole
  have opened : after.isOpen = true := by simpa using gaveUp
  have receives := session.receives
  rw [opened] at receives
  refine ⟨executed, by simpa [opened] using session.replied, ?_, opened⟩
  exact ((receives.splits Framing.cut_nil).unique whole).2

/-- No connection executes a command without a name. -/
theorem named (session : Session store chunks after) : ∀ e ∈ after.log, e.1.name ≠ [] := by
  intro e member
  have executed : e.1 ∈ after.log.map Prod.fst := List.mem_map_of_mem member
  have receives := session.receives
  cases opened : after.isOpen with
  | true =>
    rw [opened] at receives
    exact splits_named (receives.splits Framing.cut_nil) _ executed
  | false =>
    rw [opened] at receives
    obtain ⟨before, rest, -, splits, -⟩ := receives.gaveUp Framing.cut_nil
    exact splits_named splits _ executed

/-- On one frame: the connection executes it if no more than the limit arrives before the last
chunk, and otherwise it gives up. -/
theorem single (session : Session store chunks after) {cmd : RESPCommand}
    (frame : Frame chunks.flatten (cmd.name :: cmd.args)) (named : cmd.name ≠ [])
    (nonempty : ∀ chunk ∈ chunks, chunk ≠ []) :
    ((∀ before rest, chunks = before ++ rest → rest ≠ [] →
        before.flatten.length ≤ kMaxRespFrameBytes) →
      (∃ clock reply, executeCommand cmd store clock = some (after.store, reply) ∧
        after.log = [(cmd, reply)] ∧ after.sent = [reply]) ∧ after.isOpen = true) ∧
    ((∃ before rest, chunks = before ++ rest ∧ rest ≠ [] ∧
        kMaxRespFrameBytes < before.flatten.length) →
      after.store = store ∧ after.log = [] ∧ after.sent = [ascii "-ERR invalid command\r\n"] ∧
        after.isOpen = false) := by
  have whole : respFraming.cut chunks.flatten = some (cmd, []) := by
    simpa using cut_frame frame named []
  rcases session.receives.single whole nonempty with
    ⟨opened, executed, -, fits⟩ | ⟨closed, executed, before, rest, split, more, long⟩
  · have opened : after.isOpen = true := by simpa using opened
    refine ⟨fun _ => ⟨?_, opened⟩, fun ⟨before, rest, split, more, long⟩ => ?_⟩
    · obtain ⟨⟨cmd', reply⟩, logged, rfl⟩ := List.map_eq_singleton_iff.mp executed
      have executes := session.executes
      rw [logged] at executes
      cases executes with
      | cons ran tail =>
        cases tail
        exact ⟨_, reply, ran, logged, by simp [session.replied, logged, opened]⟩
    · exact absurd (fits before rest split more) (Nat.not_le.mpr long)
  · have closed : after.isOpen = false := by simpa using closed
    have logged : after.log = [] := by simpa using executed
    refine ⟨fun fits => absurd (fits before rest split more) (Nat.not_le.mpr long), fun _ => ?_⟩
    have executes := session.executes
    rw [logged] at executes
    refine ⟨?_, logged, by simp [session.replied, logged, closed], closed⟩
    cases executes
    rfl

end Session

/-! ### What clients can rely on -/

/-- The canonical encoding of a command. -/
def encodeCommand (cmd : RESPCommand) : Bytes :=
  ascii "*" ++ toDecimal (cmd.args.length + 1) ++ crlf ++
    (cmd.name :: cmd.args).flatMap encodeBulkString

theorem encodeBulkString_group {value : Bytes} (size : value.length ≤ 1048576) :
    Group (encodeBulkString value) value :=
  ⟨toDecimal value.length, toDecimal_numeral (by omega), by omega, rfl⟩

theorem encode_groups {parts : List Bytes} (sizes : ∀ part ∈ parts, part.length ≤ 1048576) :
    Groups (parts.flatMap encodeBulkString) parts := by
  induction parts with
  | nil => exact .nil
  | cons part parts ih =>
    simp only [List.mem_cons, forall_eq_or_imp] at sizes
    exact .cons (encodeBulkString_group sizes.1) (ih sizes.2)

theorem encodeCommand_frame {cmd : RESPCommand} (count : cmd.args.length + 1 ≤ 1024)
    (sizes : ∀ part ∈ cmd.name :: cmd.args, part.length ≤ 1048576) :
    Frame (encodeCommand cmd) (cmd.name :: cmd.args) :=
  ⟨toDecimal (cmd.args.length + 1), _, toDecimal_numeral (by omega), by simp, count,
    encode_groups sizes, rfl⟩

/-- Each part of a command is shorter than the command's encoding. -/
theorem length_le_encodeCommand {cmd : RESPCommand} {part : Bytes}
    (member : part ∈ cmd.name :: cmd.args) : part.length + 8 ≤ (encodeCommand cmd).length := by
  obtain ⟨before, rest, split⟩ := List.append_of_mem member
  have star : (ascii "*").length = 1 := by decide
  have dollar : (ascii "$").length = 1 := by decide
  rw [encodeCommand, split]
  simp only [encodeBulkString, List.flatMap_append, List.flatMap_cons, List.length_append, star,
    dollar, crlf, List.length_cons, List.length_nil]
  omega

/-- A pipeline of commands is answered as the interpreter over a map answers it, wherever the
chunks end. -/
theorem pipeline_refines_interpreter (unbounded : cfg.maxEntries = 0)
    {store : ConcurrentStore cfg} (persistent : store.Persistent) {env : Env} (calm : env.Calm)
    {now : Int} {outcomes : List Recv} {chunks : List Bytes}
    (delivers : Delivers env.idleTimeout now outcomes chunks) {cmds : List RESPCommand}
    (valid : ∀ cmd ∈ cmds, cmd.name ≠ [] ∧ cmd.args.length + 1 ≤ 1024 ∧
      (encodeCommand cmd).length ≤ 1048576)
    (stream : chunks.flatten = cmds.flatMap encodeCommand) :
    ∃ after, handleRespClient env store now outcomes = some after ∧
      after.log.map Prod.fst = cmds ∧ after.sent = (interpretAll store.content cmds).2 ∧
      after.buffer = [] ∧ after.isOpen = true ∧
      after.store.content = (interpretAll store.content cmds).1 := by
  obtain ⟨after, ends, session⟩ := handleRespClient_session calm
    (executeCommand_persistent unbounded) persistent delivers
  have frames : ∀ f ∈ cmds.map fun cmd => (encodeCommand cmd, cmd),
      Frame f.1 (f.2.name :: f.2.args) ∧ f.1.length ≤ kMaxRespFrameBytes := by
    intro f member
    obtain ⟨cmd, source, rfl⟩ := List.mem_map.mp member
    obtain ⟨-, count, size⟩ := valid cmd source
    refine ⟨encodeCommand_frame count fun part inside => ?_, size⟩
    have := length_le_encodeCommand inside
    omega
  obtain ⟨executed, replied, buffer, opened⟩ := session.all_frames
    (by simpa [List.flatMap_def, Function.comp_def] using stream) frames (by
      intro f member
      obtain ⟨cmd, source, rfl⟩ := List.mem_map.mp member
      exact (valid cmd source).1)
  have names : after.log.map Prod.fst = cmds := by
    simpa [Function.comp_def] using executed
  obtain ⟨replies, content⟩ := session.executes.interpret unbounded persistent
  rw [names] at replies content
  exact ⟨after, ends, names, replied.trans replies, buffer, opened, content⟩

/-- An unbounded store with one stripe. -/
def plainConfig : Config := ⟨1, 0, fun _ => 0⟩

def steadyEnv : Env := ⟨fun _ => false, fun _ => none, fun _ => 0, 30000⟩

theorem steadyEnv_calm : steadyEnv.Calm := ⟨fun _ => rfl, fun _ => rfl⟩

def inTwo (n : Nat) (stream : Bytes) : List Bytes := [stream.take n, stream.drop n]

theorem inTwo_flatten (n : Nat) (stream : Bytes) : (inTwo n stream).flatten = stream := by
  simp [inTwo]

def pipelined : List RESPCommand :=
  [⟨ascii "set", [ascii "k", ascii "v\r\n"]⟩, ⟨ascii "GET", [ascii "k"]⟩, ⟨ascii "PING", []⟩]

theorem pipelined_replies : ∃ after,
    handleRespClient steadyEnv (ConcurrentStore.new plainConfig) 0
      ((inTwo 7 (pipelined.flatMap encodeCommand)).map (Recv.data · 0)) = some after ∧
    after.sent = [ascii "+OK\r\n", ascii "$3\r\nv\r\n\r\n", ascii "-ERR unknown command\r\n"] := by
  obtain ⟨after, ends, -, replied, -⟩ := pipeline_refines_interpreter rfl
    (ConcurrentStore.new_persistent plainConfig) steadyEnv_calm (delivers_data _ 0 0 _)
    (show ∀ cmd ∈ pipelined, _ from by decide) (inTwo_flatten 7 _)
  exact ⟨after, ends, replied.trans (by decide)⟩

/-- Whatever bytes a client sends, the chunks in which they arrive make no difference, as long as
the frames that the parser accepts are within the connection's limit. -/
theorem chunking_invisible (unbounded : cfg.maxEntries = 0) {store : ConcurrentStore cfg}
    (persistent : store.Persistent) {stream : Bytes}
    (short : ∀ t parsed, respFraming.Reaches stream t → parseRESP t = .ok parsed →
      parsed.bytesConsumed ≤ kMaxRespFrameBytes)
    {env env' : Env} (calm : env.Calm) (calm' : env'.Calm) {now now' : Int}
    {outcomes outcomes' : List Recv} {chunks chunks' : List Bytes}
    (delivers : Delivers env.idleTimeout now outcomes chunks) (flat : chunks.flatten = stream)
    (delivers' : Delivers env'.idleTimeout now' outcomes' chunks')
    (flat' : chunks'.flatten = stream) :
    ∃ after after', handleRespClient env store now outcomes = some after ∧
      handleRespClient env' store now' outcomes' = some after' ∧
      after.log = after'.log ∧ after.sent = after'.sent ∧ after.isOpen = after'.isOpen ∧
      after.store.content = after'.store.content := by
  have short_cut : respFraming.Short kMaxRespFrameBytes stream := by
    intro t cmd rest reaches taken
    obtain ⟨parsed, read, -, -, rfl⟩ := parse_of_cut_eq_some taken
    have := short t parsed reaches read
    rw [List.length_drop]
    omega
  obtain ⟨after, ends, session⟩ := handleRespClient_session calm
    (executeCommand_persistent unbounded) persistent delivers
  obtain ⟨after', ends', session'⟩ := handleRespClient_session calm'
    (executeCommand_persistent unbounded) persistent delivers'
  obtain ⟨left, splits, gaveUp⟩ := session.receives.short (flat ▸ short_cut)
  obtain ⟨left', splits', gaveUp'⟩ := session'.receives.short (flat' ▸ short_cut)
  rw [flat] at splits
  rw [flat'] at splits'
  obtain ⟨executed, rfl⟩ := splits.unique splits'
  have opened : after.isOpen = after'.isOpen :=
    Bool.not_inj (Bool.eq_iff_iff.mpr (gaveUp.trans gaveUp'.symm))
  obtain ⟨replies, content⟩ := session.executes.interpret unbounded persistent
  obtain ⟨replies', content'⟩ := session'.executes.interpret unbounded persistent
  rw [executed] at replies content
  have replied := replies.trans replies'.symm
  have logged : after.log = after'.log := by
    rw [← List.zip_unzip after.log, ← List.zip_unzip after'.log]
    simp [List.unzip_eq_map, executed, replied]
  refine ⟨after, after', ends, ends', logged, ?_, opened, content.trans content'.symm⟩
  rw [session.replied, session'.replied, logged, opened]

/-- A stream within the limit has no longer frames. -/
theorem consumed_le_of_length_le {stream : Bytes} (size : stream.length ≤ kMaxRespFrameBytes)
    {t : Bytes} {parsed : RESPParseResult} (reaches : respFraming.Reaches stream t)
    (read : parseRESP t = .ok parsed) : parsed.bytesConsumed ≤ kMaxRespFrameBytes :=
  ((parseRESP_consumed_le read).trans reaches.length_le).trans size

def malformedTail : Bytes := ascii "*1\r\n$4\r\nPING\r\n*x\r\n"

theorem malformedTail_chunkings : ∃ after after',
    handleRespClient steadyEnv (ConcurrentStore.new plainConfig) 0
      ((inTwo 3 malformedTail).map (Recv.data · 0)) = some after ∧
    handleRespClient steadyEnv (ConcurrentStore.new plainConfig) 0
      ((inTwo 15 malformedTail).map (Recv.data · 0)) = some after' ∧
    after.sent = after'.sent := by
  obtain ⟨after, after', ends, ends', -, replied, -⟩ := chunking_invisible rfl
    (ConcurrentStore.new_persistent plainConfig)
    (fun t parsed => consumed_le_of_length_le (show malformedTail.length ≤ _ from by decide))
    steadyEnv_calm steadyEnv_calm (delivers_data _ 0 0 _) (inTwo_flatten 3 malformedTail)
    (delivers_data _ 0 0 _) (inTwo_flatten 15 malformedTail)
  exact ⟨after, after', ends, ends', replied⟩

/-- A single command is executed once and answered, unless more than `kMaxRespFrameBytes` of it
arrive before its last chunk: then the connection refuses it and closes. -/
theorem frame_limit {store : ConcurrentStore cfg} (rep : store.Rep) {env : Env} (calm : env.Calm)
    {now : Int} {outcomes : List Recv} {chunks : List Bytes}
    (delivers : Delivers env.idleTimeout now outcomes chunks)
    (sizes : ∀ chunk ∈ chunks, 1 ≤ chunk.length ∧ chunk.length ≤ 4096) {cmd : RESPCommand}
    (named : cmd.name ≠ [])
    (accepted : parseRESP chunks.flatten = .ok ⟨cmd, chunks.flatten.length⟩) :
    ∃ after, handleRespClient env store now outcomes = some after ∧
      ((∀ before rest, chunks = before ++ rest → rest ≠ [] →
          before.flatten.length ≤ kMaxRespFrameBytes) →
        (∃ clock reply, executeCommand cmd store clock = some (after.store, reply) ∧
          after.log = [(cmd, reply)] ∧ after.sent = [reply]) ∧ after.isOpen = true) ∧
      ((∃ before rest, chunks = before ++ rest ∧ rest ≠ [] ∧
          kMaxRespFrameBytes < before.flatten.length) →
        after.store = store ∧ after.log = [] ∧
          after.sent = [ascii "-ERR invalid command\r\n"] ∧ after.isOpen = false) := by
  obtain ⟨after, ends, session⟩ := handleRespClient_session calm
    (fun store cmd clock rep => executeCommand_total rep cmd clock) rep delivers
  have nonempty : chunks.flatten ≠ [] := by
    intro empty
    rw [empty] at accepted
    simp [show parseRESP [] = .ok .empty from rfl, RESPParseResult.empty] at accepted
    exact named (by rw [← accepted])
  exact ⟨after, ends, session.single (frame_of_parseRESP nonempty accepted) named
    fun chunk member => List.ne_nil_of_length_pos (sizes chunk member).1⟩

def getCommand : RESPCommand := ⟨ascii "GET", [ascii "k"]⟩

theorem getCommand_answered : ∃ after reply,
    handleRespClient steadyEnv (ConcurrentStore.new plainConfig) 0
      ((inTwo 9 (encodeCommand getCommand)).map (Recv.data · 0)) = some after ∧
    after.log = [(getCommand, reply)] ∧ after.sent = [reply] := by
  obtain ⟨after, ends, fits, -⟩ := frame_limit (ConcurrentStore.new_rep plainConfig) steadyEnv_calm
    (delivers_data _ 0 0 (inTwo 9 (encodeCommand getCommand))) (by decide)
    (show getCommand.name ≠ [] from by decide) (by decide)
  obtain ⟨⟨_, reply, -, logged, sent⟩, -⟩ := fits fun before rest split _ => by
    have total := congrArg (fun c => c.flatten.length) split
    have size : (inTwo 9 (encodeCommand getCommand)).flatten.length = 20 := by decide
    simp only [List.flatten_append, List.length_append, size] at total
    rw [kMaxRespFrameBytes]
    omega
  exact ⟨after, reply, ends, logged, sent⟩

def bytewise (stream : Bytes) : List Bytes := stream.map fun b => [b]

theorem bytewise_flatten (stream : Bytes) : (bytewise stream).flatten = stream := by
  simp [bytewise, ← List.flatMap_def]

theorem bytewise_sizes (stream : Bytes) :
    ∀ chunk ∈ bytewise stream, 1 ≤ chunk.length ∧ chunk.length ≤ 4096 := by
  simp [bytewise]

def setCommand (value : Bytes) : RESPCommand := ⟨ascii "SET", [ascii "k", value]⟩

/-- The parser accepts the `SET` of a value of 1 MiB, but if the command arrives byte by byte, the
connection refuses it. -/
theorem setCommand_refused {value : Bytes} (size : value.length = 1048576) :
    parseRESP (encodeCommand (setCommand value)) =
      .ok ⟨setCommand value, (encodeCommand (setCommand value)).length⟩ ∧
    ∃ after, handleRespClient steadyEnv (ConcurrentStore.new plainConfig) 0
        ((bytewise (encodeCommand (setCommand value))).map (Recv.data · 0)) = some after ∧
      after.log = [] ∧ after.sent = [ascii "-ERR invalid command\r\n"] ∧ after.isOpen = false := by
  have frame : Frame (encodeCommand (setCommand value))
      ((setCommand value).name :: (setCommand value).args) := by
    refine encodeCommand_frame (by simp [setCommand]) ?_
    simp only [setCommand, List.mem_cons, List.not_mem_nil, or_false, forall_eq_or_imp, forall_eq]
    exact ⟨by decide, by decide, size.le⟩
  have long : value.length + 8 ≤ (encodeCommand (setCommand value)).length :=
    length_le_encodeCommand (by simp [setCommand])
  have accepted := parseRESP_append [] frame
  rw [List.append_nil] at accepted
  refine ⟨accepted, ?_⟩
  generalize encodeCommand (setCommand value) = stream at *
  obtain ⟨after, ends, session⟩ := handleRespClient_session steadyEnv_calm
    (fun store cmd clock rep => executeCommand_total rep cmd clock)
    (ConcurrentStore.new_rep plainConfig)
    (delivers_data steadyEnv.idleTimeout 0 0 (bytewise stream))
  rw [← bytewise_flatten stream] at frame
  obtain ⟨-, refused⟩ := session.single frame (show ascii "SET" ≠ [] from by decide)
    (by simp [bytewise])
  have split : bytewise stream =
      bytewise (stream.take 1048577) ++ bytewise (stream.drop 1048577) := by
    rw [bytewise, bytewise, bytewise, ← List.map_append, List.take_append_drop]
  refine ⟨after, ends, (refused ⟨_, _, split, ?_, ?_⟩).2⟩
  · rw [bytewise, Ne, List.map_eq_nil_iff, List.drop_eq_nil_iff]
    omega
  · rw [bytewise_flatten, List.length_take, kMaxRespFrameBytes]
    omega

def largeSet : RESPCommand := setCommand (List.replicate 1048576 0)

/-- The connection refuses a frame that the parser accepts. -/
theorem largeSet_refused :
    parseRESP (encodeCommand largeSet) = .ok ⟨largeSet, (encodeCommand largeSet).length⟩ ∧
    (bytewise (encodeCommand largeSet)).flatten = encodeCommand largeSet ∧
    (∀ chunk ∈ bytewise (encodeCommand largeSet), 1 ≤ chunk.length ∧ chunk.length ≤ 4096) ∧
    ∃ after, handleRespClient steadyEnv (ConcurrentStore.new plainConfig) 0
        ((bytewise (encodeCommand largeSet)).map (Recv.data · 0)) = some after ∧
      after.log = [] ∧ after.sent = [ascii "-ERR invalid command\r\n"] ∧
      after.isOpen = false :=
  have refused := setCommand_refused List.length_replicate
  ⟨refused.1, bytewise_flatten _, bytewise_sizes _, refused.2⟩

/-- Frames that arrive back to back are all consumed and answered, one reply each and in order,
exactly when each of them has a command name. -/
theorem frames_answered_iff {store : ConcurrentStore cfg} (rep : store.Rep) {env : Env}
    (calm : env.Calm) {now : Int} {outcomes : List Recv} {chunks : List Bytes}
    (delivers : Delivers env.idleTimeout now outcomes chunks)
    {frames : List (Bytes × RESPCommand)}
    (accepted : ∀ f ∈ frames, parseRESP f.1 = .ok ⟨f.2, f.1.length⟩ ∧ 0 < f.1.length ∧
      f.1.length ≤ 1048576)
    (stream : chunks.flatten = (frames.map Prod.fst).flatten) :
    ∃ after, handleRespClient env store now outcomes = some after ∧
      ((after.log.map Prod.fst = frames.map Prod.snd ∧ after.sent = after.log.map Prod.snd ∧
          after.buffer = []) ↔ ∀ f ∈ frames, f.2.name ≠ []) := by
  obtain ⟨after, ends, session⟩ := handleRespClient_session calm
    (fun store cmd clock rep => executeCommand_total rep cmd clock) rep delivers
  refine ⟨after, ends, fun ⟨executed, _⟩ f member => ?_, fun named => ?_⟩
  · have taken : f.2 ∈ after.log.map Prod.fst := executed ▸ List.mem_map_of_mem member
    obtain ⟨e, logged, same⟩ := List.mem_map.mp taken
    exact same ▸ session.named e logged
  · obtain ⟨executed, replied, buffer, -⟩ := session.all_frames stream (fun f member => by
      obtain ⟨whole, positive, size⟩ := accepted f member
      exact ⟨frame_of_parseRESP (List.ne_nil_of_length_pos positive) whole, size⟩) named
    exact ⟨executed, replied, buffer⟩

def pingCommand : RESPCommand := ⟨ascii "PING", []⟩

theorem ping_get_answered : ∃ after,
    handleRespClient steadyEnv (ConcurrentStore.new plainConfig) 0
      ([encodeCommand pingCommand ++ encodeCommand getCommand].map (Recv.data · 0)) = some after ∧
    after.log.map Prod.fst = [pingCommand, getCommand] ∧ after.buffer = [] := by
  obtain ⟨after, ends, answered⟩ := frames_answered_iff (ConcurrentStore.new_rep plainConfig)
    steadyEnv_calm (delivers_data _ 0 0 [encodeCommand pingCommand ++ encodeCommand getCommand])
    (show ∀ f ∈ [(encodeCommand pingCommand, pingCommand), (encodeCommand getCommand, getCommand)],
      _ from by decide) (by decide)
  obtain ⟨executed, -, buffer⟩ := answered.mpr (by decide)
  exact ⟨after, ends, executed, buffer⟩

/-- After an accepted frame without a command name, the `PING` that follows is not executed. -/
theorem unnamed_frame_stalls :
    parseRESP (ascii "*1\r\n$0\r\n\r\n") = .ok ⟨⟨[], []⟩, 10⟩ ∧
    parseRESP (encodeCommand pingCommand) = .ok ⟨pingCommand, 14⟩ ∧
    (handleRespClient steadyEnv (ConcurrentStore.new plainConfig) 0
        [.data (ascii "*1\r\n$0\r\n\r\n" ++ encodeCommand pingCommand) 0]).map
      (fun after => (after.log, after.sent, after.buffer)) =
      some ([], [], ascii "*1\r\n$0\r\n\r\n" ++ encodeCommand pingCommand) := by
  decide

end DistributedCache.Server

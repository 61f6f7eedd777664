import DistributedCache.Server.CommandDispatcher

/-! The replies as a client reads them.  A decoder of RESP replies cuts a stream at lines and at the
lengths of bulk strings, and recovers from the concatenated replies of any commands what each of
them answered. -/

namespace DistributedCache.Server

open DistributedCache.Core DistributedCache.Protocol Lib

/-- A reply of the protocol, of the kinds that the server sends. -/
inductive Reply
  | simpleString (text : Bytes)
  | error (text : Bytes)
  | bulkString (value : Bytes)
  | nullBulk
deriving DecidableEq, Repr

/-- The reply that a result stands for. -/
def CommandResult.reply (result : CommandResult) : Reply :=
  match result.status with
  | .ok =>
    match result.value with
    | some value => .bulkString value
    | none => .simpleString (ascii "OK")
  | .notFound => .nullBulk
  | .error | .invalidKey | .unknownCommand => .error (ascii "ERR " ++ result.message)

/-- The result that a client takes from a reply. -/
def Reply.result : Reply → CommandResult
  | simpleString _ => ⟨.ok, none, []⟩
  | bulkString value => ⟨.ok, some value, []⟩
  | nullBulk => ⟨.notFound, none, []⟩
  | error text =>
    let message := text.drop 4
    if message = kEmptyKeyMessage then errorResult .invalidKey message
    else if message = ascii "unknown command" then errorResult .unknownCommand message
    else errorResult .error message

/-! ### The decoder -/

/-- A line, and the stream after its terminator. -/
def decodeLine (stream : Bytes) : Option (Bytes × Bytes) :=
  (findCrlf stream).map fun length => (stream.take length, stream.drop (length + 2))

/-- The bytes of a bulk string and its terminator. -/
def decodeBulk (length : Nat) (stream : Bytes) : Option (Reply × Bytes) :=
  if length ≤ stream.length ∧ (stream.drop length).take 2 = crlf then
    some (.bulkString (stream.take length), stream.drop (length + 2))
  else none

/-- The first reply of a stream, and the stream after it. -/
def decodeReply : Bytes → Option (Reply × Bytes)
  | [] => none
  | marker :: stream =>
    (decodeLine stream).bind fun (line, rest) =>
      if marker = 43 then some (.simpleString line, rest)
      else if marker = 45 then some (.error line, rest)
      else if marker = 36 then
        if line = ascii "-1" then some (.nullBulk, rest)
        else if line ≠ [] ∧ line.all isDigit then decodeBulk (digitsValue line) rest
        else none
      else none

/-- At most `fuel` replies, up to the end of the stream. -/
def decodeUpTo : Nat → Bytes → Option (List Reply)
  | _, [] => some []
  | 0, _ :: _ => none
  | fuel + 1, stream =>
    (decodeReply stream).bind fun (reply, rest) => (decodeUpTo fuel rest).map (reply :: ·)

/-- All replies of a stream.  A reply takes up at least one byte. -/
def decodeReplies (stream : Bytes) : Option (List Reply) := decodeUpTo stream.length stream

/-! ### The decoder on what the server sends -/

theorem decodeLine_append {line : Bytes} (rest : Bytes) (clean : 13 ∉ line) :
    decodeLine (line ++ crlf ++ rest) = some (line, rest) := by
  rw [decodeLine, findCrlf_append rest clean, Option.map_some]
  simp [crlf]

theorem decodeBulk_append (value rest : Bytes) :
    decodeBulk value.length (value ++ crlf ++ rest) = some (.bulkString value, rest) := by
  have room : value.length ≤ (value ++ crlf ++ rest).length := by
    simp
  have ends : ((value ++ crlf ++ rest).drop value.length).take 2 = crlf := by
    simp [crlf]
  rw [decodeBulk, if_pos ⟨room, ends⟩]
  simp [crlf]

theorem not_mem_toDecimal {n : Nat} {b : UInt8} (other : isDigit b = false) : b ∉ toDecimal n := by
  intro member
  have digit := isDigit_of_mem_toDecimal member
  simp [other] at digit

theorem toDecimal_ne_minusOne (n : Nat) : toDecimal n ≠ ascii "-1" := by
  intro same
  have sign : (45 : UInt8) ∉ toDecimal n := not_mem_toDecimal (by decide)
  rw [same] at sign
  exact sign (by decide)

/-- A bulk string is read back whatever its bytes are. -/
theorem decodeReply_encodeBulkString (value rest : Bytes) :
    decodeReply (encodeBulkString value ++ rest) = some (.bulkString value, rest) := by
  have line : decodeLine (toDecimal value.length ++ crlf ++ (value ++ crlf ++ rest)) =
      some (toDecimal value.length, value ++ crlf ++ rest) :=
    decodeLine_append _ (not_mem_toDecimal (by decide))
  have digits : toDecimal value.length ≠ [] ∧ (toDecimal value.length).all isDigit :=
    ⟨toDecimal_ne_nil _, List.all_eq_true.mpr fun _ => isDigit_of_mem_toDecimal⟩
  have split : encodeBulkString value ++ rest =
      36 :: (toDecimal value.length ++ crlf ++ (value ++ crlf ++ rest)) := by
    simp only [encodeBulkString, List.append_assoc]
    rfl
  rw [split, decodeReply, line, Option.bind_some]
  dsimp only
  rw [if_neg (by decide), if_neg (by decide), if_pos rfl, if_neg (toDecimal_ne_minusOne _),
    if_pos digits, digitsValue_toDecimal, decodeBulk_append]

theorem decodeReply_simpleString {text : Bytes} (rest : Bytes) (clean : 13 ∉ text) :
    decodeReply (43 :: (text ++ crlf ++ rest)) = some (.simpleString text, rest) := by
  rw [decodeReply, decodeLine_append rest clean]
  rfl

theorem decodeReply_error {text : Bytes} (rest : Bytes) (clean : 13 ∉ text) :
    decodeReply (45 :: (text ++ crlf ++ rest)) = some (.error text, rest) := by
  rw [decodeReply, decodeLine_append rest clean]
  rfl

theorem decodeReply_nullBulk (rest : Bytes) :
    decodeReply (ascii "$-1\r\n" ++ rest) = some (.nullBulk, rest) := by
  have split : ascii "$-1\r\n" ++ rest = 36 :: (ascii "-1" ++ crlf ++ rest) := rfl
  rw [split, decodeReply, decodeLine_append rest (by decide)]
  rfl

/-! ### The results that a command can have -/

/-- The results of `DispatchCommand`. -/
inductive Possible : CommandResult → Prop
  | stored : Possible ⟨.ok, none, []⟩
  | found (value : Bytes) : Possible ⟨.ok, some value, []⟩
  | notFound : Possible ⟨.notFound, none, []⟩
  | arguments : Possible (errorResult .error (ascii "wrong number of arguments"))
  | emptyKey : Possible (errorResult .invalidKey kEmptyKeyMessage)
  | unknown : Possible (errorResult .unknownCommand (ascii "unknown command"))

theorem dispatchCommand_possible {cfg : Config} {store after : ConcurrentStore cfg}
    {command : Bytes} {args : List Bytes} {clock : Nat → Int} {result : CommandResult}
    (dispatched : dispatchCommand command args store clock = some (after, result)) :
    Possible result := by
  unfold dispatchCommand at dispatched
  dsimp only at dispatched
  split at dispatched
  · split at dispatched
    · split at dispatched
      · cases dispatched
        exact .emptyKey
      · obtain ⟨_, -, same⟩ := Option.map_eq_some_iff.mp dispatched
        cases same
        exact .stored
    · cases dispatched
      exact .arguments
  · split at dispatched
    · split at dispatched
      · split at dispatched
        · cases dispatched
          exact .emptyKey
        · split at dispatched
          · cases dispatched
            exact .notFound
          · cases dispatched
            exact .found _
      · cases dispatched
        exact .arguments
    · cases dispatched
      exact .unknown

/-- Whatever follows it, the reply for a result is read back. -/
theorem Possible.decodeReply {result : CommandResult} (possible : Possible result) (rest : Bytes) :
    decodeReply (encodeResult result ++ rest) = some (result.reply, rest) := by
  cases possible with
  | stored => exact @decodeReply_simpleString (ascii "OK") rest (by decide)
  | found value => exact decodeReply_encodeBulkString value rest
  | notFound => exact decodeReply_nullBulk rest
  | arguments => exact decodeReply_error rest (by decide)
  | emptyKey => exact decodeReply_error rest (by decide)
  | unknown => exact decodeReply_error rest (by decide)

/-- The reply tells which result it stands for. -/
theorem Possible.result_reply {result : CommandResult} (possible : Possible result) :
    result.reply.result = result := by
  cases possible with
  | found value => rfl
  | stored | notFound | arguments | emptyKey | unknown => decide

/-- A reply of `ExecuteCommand` for some command on some store, with the result behind it. -/
def Executed (result : CommandResult) (reply : Bytes) : Prop :=
  ∃ (cfg : Config) (store after : ConcurrentStore cfg) (cmd : RESPCommand) (clock : Nat → Int),
    dispatchCommand cmd.name cmd.args store clock = some (after, result) ∧
      executeCommand cmd store clock = some (after, reply)

theorem Executed.possible {result : CommandResult} {reply : Bytes}
    (executed : Executed result reply) : Possible result ∧ reply = encodeResult result := by
  obtain ⟨cfg, store, after, cmd, clock, dispatched, replied⟩ := executed
  rw [executeCommand, dispatched] at replied
  cases replied
  exact ⟨dispatchCommand_possible dispatched, rfl⟩

theorem encodeResult_ne_nil (result : CommandResult) : encodeResult result ≠ [] := by
  unfold encodeResult
  split
  · split
    · simp [encodeBulkString, crlf]
    · decide
  · decide
  all_goals simp [crlf]

theorem decodeUpTo_executed {results : List CommandResult} {replies : List Bytes}
    (executed : List.Forall₂ Executed results replies) (fuel : Nat)
    (enough : replies.flatten.length ≤ fuel) :
    decodeUpTo fuel replies.flatten = some (results.map CommandResult.reply) := by
  induction executed generalizing fuel with
  | nil =>
    unfold decodeUpTo
    rfl
  | @cons result reply results replies head _ ih =>
    obtain ⟨possible, rfl⟩ := head.possible
    have nonempty := encodeResult_ne_nil result
    have size := List.length_pos_of_ne_nil nonempty
    rw [List.flatten_cons, List.length_append] at enough
    cases fuel with
    | zero => omega
    | succ fuel =>
      rw [List.flatten_cons, decodeUpTo, possible.decodeReply, Option.bind_some]
      · dsimp only
        rw [ih fuel (by omega)]
        rfl
      · exact fun empty => nonempty (List.append_eq_nil_iff.mp empty).1

theorem map_result_reply {results : List CommandResult} {replies : List Bytes}
    (executed : List.Forall₂ Executed results replies) :
    (results.map CommandResult.reply).map Reply.result = results := by
  induction executed with
  | nil => rfl
  | cons head _ ih => rw [List.map_cons, List.map_cons, ih, head.possible.1.result_reply]

/-- The concatenated replies of any commands on any stores decode to the results of the commands,
one for one. -/
theorem decodeReplies_executed {results : List CommandResult} {replies : List Bytes}
    (executed : List.Forall₂ Executed results replies) :
    decodeReplies replies.flatten = some (results.map CommandResult.reply) ∧
      (results.map CommandResult.reply).map Reply.result = results :=
  ⟨decodeUpTo_executed executed _ le_rfl, map_result_reply executed⟩

/-- A store that holds one value. -/
def holding (value : Bytes) : ConcurrentStore ⟨1, 0, fun _ => 0⟩ :=
  (ConcurrentStore.new _).put (ascii "k") ⟨value, none, 1, 0, false⟩

/-- An empty value, a missing key, and a value that looks like the reply for a missing key. -/
theorem decodeReplies_lookalikes :
    decodeReplies (ascii "$0\r\n\r\n$-1\r\n$5\r\n$-1\r\n\r\n") =
      some [.bulkString [], .nullBulk, .bulkString (ascii "$-1\r\n")] :=
  (decodeReplies_executed
    (.cons ⟨_, holding [], _, ⟨ascii "GET", [ascii "k"]⟩, fun _ => 0, rfl, rfl⟩
      (.cons ⟨_, holding [], _, ⟨ascii "GET", [ascii "m"]⟩, fun _ => 0, rfl, rfl⟩
        (.cons ⟨_, holding (ascii "$-1\r\n"), _, ⟨ascii "get", [ascii "k"]⟩, fun _ => 0, rfl, rfl⟩
          .nil)))).1

end DistributedCache.Server

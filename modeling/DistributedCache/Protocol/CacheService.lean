import DistributedCache.Server.CommandDispatcher

/-! The gRPC front end, `CacheServiceImpl`, next to the RESP front end on the same store: requests
of either protocol in any order, and what a client sees when a request comes over the other
protocol. -/

namespace DistributedCache.Protocol

open DistributedCache.Core DistributedCache.Server Lib

/-- The codes of `::grpc::Status` that the service returns. -/
inductive StatusCode
  | ok
  | invalidArgument
  deriving DecidableEq

/-- `::grpc::Status`. -/
structure Status where
  code : StatusCode
  message : Bytes

/-- `::grpc::Status::OK`. -/
def Status.success : Status := ⟨.ok, []⟩

structure SetRequest where
  key : Bytes
  value : Bytes

structure SetResponse where
  ok : Bool := false
  error : Bytes := []

structure GetRequest where
  key : Bytes

structure GetResponse where
  found : Bool := false
  value : Bytes := []
  error : Bytes := []

namespace CacheServiceImpl

/-- The status of `CacheServiceImpl::Set` and its response, from the result of the dispatcher. -/
def setReply (result : CommandResult) : Status × SetResponse :=
  if result.status = .invalidKey then
    (⟨.invalidArgument, result.message⟩, { ok := false, error := result.message })
  else if result.status = .ok then (Status.success, { ok := true })
  else (Status.success, { ok := false, error := result.message })

/-- The status of `CacheServiceImpl::Get` and its response, from the result of the dispatcher. -/
def getReply (result : CommandResult) : Status × GetResponse :=
  if result.status = .invalidKey then
    (⟨.invalidArgument, result.message⟩, { found := false, error := result.message })
  else match result.status, result.value with
    | .ok, some value => (Status.success, { found := true, value := value })
    | .notFound, _ => (Status.success, { found := false })
    | _, _ => (Status.success, { found := false, error := result.message })

variable {cfg : Config}

def set (request : SetRequest) (store : ConcurrentStore cfg) (clock : Nat → Int) :
    Option (ConcurrentStore cfg × Status × SetResponse) :=
  (dispatchCommand (ascii "SET") [request.key, request.value] store clock).map fun r =>
    (r.1, setReply r.2)

def get (request : GetRequest) (store : ConcurrentStore cfg) (clock : Nat → Int) :
    Option (ConcurrentStore cfg × Status × GetResponse) :=
  (dispatchCommand (ascii "GET") [request.key] store clock).map fun r => (r.1, getReply r.2)

end CacheServiceImpl

/-- A request of one of the two protocols. -/
inductive Ingress
  | resp (cmd : RESPCommand)
  | grpcSet (request : SetRequest)
  | grpcGet (request : GetRequest)

/-- What the client of a request receives. -/
inductive Answer
  | resp (reply : Bytes)
  | grpcSet (status : Status) (response : SetResponse)
  | grpcGet (status : Status) (response : GetResponse)

/-- The RESP commands for a gRPC request: the same key and value, and the name in any case. -/
inductive Ingress.Translates : Ingress → Ingress → Prop
  | set {name : Bytes} (request : SetRequest) : spells (ascii "SET") name →
      Translates (.grpcSet request) (.resp ⟨name, [request.key, request.value]⟩)
  | get {name : Bytes} (request : GetRequest) : spells (ascii "GET") name →
      Translates (.grpcGet request) (.resp ⟨name, [request.key]⟩)

/-- The same request over the same protocol or over the other one. -/
def Ingress.Alike (a b : Ingress) : Prop := a = b ∨ a.Translates b ∨ b.Translates a

/-- An answer of the gRPC front end and a RESP reply tell the client the same. -/
def Answer.Matches : Answer → Answer → Prop
  | grpcSet status response, resp reply =>
    (response.ok = true ↔ reply = ascii "+OK\r\n") ∧
      (status.code = .invalidArgument ↔ reply = ascii "-ERR key must not be empty\r\n")
  | grpcGet status response, resp reply =>
    (∀ value, (response.found = true ∧ response.value = value) ↔ reply = encodeBulkString value) ∧
      ((response.found = false ∧ response.error = []) ↔ reply = ascii "$-1\r\n") ∧
      (status.code = .invalidArgument ↔ reply = ascii "-ERR key must not be empty\r\n")
  | _, _ => False

/-- The answers to two requests of which one may stand in the place of the other. -/
def Corresponds (x y : Ingress × Answer) : Prop :=
  (x.1 = y.1 → x.2 = y.2) ∧ (x.1.Translates y.1 → x.2.Matches y.2) ∧
    (y.1.Translates x.1 → y.2.Matches x.2)

section

variable {cfg : Config}

/-- The store after a request, and the answer to it. -/
def Ingress.handle (store : ConcurrentStore cfg) (clock : Nat → Int) :
    Ingress → Option (ConcurrentStore cfg × Answer)
  | resp cmd => (executeCommand cmd store clock).map fun r => (r.1, .resp r.2)
  | grpcSet request =>
    (CacheServiceImpl.set request store clock).map fun r => (r.1, .grpcSet r.2.1 r.2.2)
  | grpcGet request =>
    (CacheServiceImpl.get request store clock).map fun r => (r.1, .grpcGet r.2.1 r.2.2)

/-- The store after a sequence of requests, each with its readings of the clock, and the requests
with their answers. -/
def handleAll (store : ConcurrentStore cfg) :
    List (Ingress × (Nat → Int)) → Option (ConcurrentStore cfg × List (Ingress × Answer))
  | [] => some (store, [])
  | (request, clock) :: rest =>
    (request.handle store clock).bind fun r =>
      (handleAll r.1 rest).map fun q => (q.1, (request, r.2) :: q.2)

/-! ### The dispatcher under both front ends -/

theorem dispatchCommand_congr {name name' : Bytes} (same : toUpper name = toUpper name')
    (args : List Bytes) (store : ConcurrentStore cfg) (clock : Nat → Int) :
    dispatchCommand name args store clock = dispatchCommand name' args store clock := by
  unfold dispatchCommand
  rw [same]

theorem toUpper_set : toUpper (ascii "SET") = ascii "SET" := by decide +kernel

theorem toUpper_get : toUpper (ascii "GET") = ascii "GET" := by decide +kernel

/-- A `SET` with both arguments ends with an invalid key or with success. -/
theorem dispatchCommand_set {store : ConcurrentStore cfg} (rep : store.Rep) (key value : Bytes)
    (clock : Nat → Int) : ∃ after result,
      dispatchCommand (ascii "SET") [key, value] store clock = some (after, result) ∧ after.Rep ∧
        (result = errorResult .invalidKey kEmptyKeyMessage ∨ result = ⟨.ok, none, []⟩) := by
  simp only [dispatchCommand, toUpper_set, if_true]
  by_cases empty : key = []
  · rw [if_pos empty]
    exact ⟨store, _, rfl, rep, .inl rfl⟩
  · rw [if_neg empty]
    obtain ⟨after, returned, rep'⟩ := ConcurrentStore.set_total rep key value none clock
    exact ⟨after, _, by rw [returned]; rfl, rep', .inr rfl⟩

/-- A `GET` with its argument ends with an invalid key, without a value, or with a value. -/
theorem dispatchCommand_get {store : ConcurrentStore cfg} (rep : store.Rep) (key : Bytes)
    (clock : Nat → Int) : ∃ after result,
      dispatchCommand (ascii "GET") [key] store clock = some (after, result) ∧ after.Rep ∧
        (result = errorResult .invalidKey kEmptyKeyMessage ∨ result = ⟨.notFound, none, []⟩ ∨
          ∃ value, result = ⟨.ok, some value, []⟩) := by
  simp only [dispatchCommand, toUpper_get, set_ne_get.symm, if_false, if_true]
  by_cases empty : key = []
  · rw [if_pos empty]
    exact ⟨store, _, rfl, rep, .inl rfl⟩
  · rw [if_neg empty]
    have rep' := ConcurrentStore.get_rep rep key clock
    cases answer : (store.get key clock).2 with
    | none => exact ⟨_, _, rfl, rep', .inr (.inl rfl)⟩
    | some value => exact ⟨_, _, rfl, rep', .inr (.inr ⟨value, rfl⟩)⟩

/-! ### Replies that differ -/

theorem encodeBulkString_injective : Function.Injective encodeBulkString := by
  intro value value' same
  have clean : ∀ n, 13 ∉ toDecimal n := by
    intro n member
    have digit := isDigit_of_mem_toDecimal member
    revert digit
    decide
  simp only [encodeBulkString, List.append_assoc, List.append_cancel_left_eq] at same
  have lengths : (toDecimal value.length).length = (toDecimal value'.length).length := by
    have found := findCrlf_append (value ++ crlf) (clean value.length)
    have found' := findCrlf_append (value' ++ crlf) (clean value'.length)
    rw [List.append_assoc] at found found'
    rw [same, found'] at found
    exact Option.some.inj found.symm
  obtain ⟨-, rest⟩ := List.append_inj same lengths
  simpa using rest

/-- The second byte of a bulk string is a digit. -/
theorem encodeBulkString_ne_nil_reply (value : Bytes) :
    encodeBulkString value ≠ ascii "$-1\r\n" := by
  intro same
  obtain ⟨first, rest, digits⟩ := List.exists_cons_of_ne_nil (toDecimal_ne_nil value.length)
  have digit : isDigit first := isDigit_of_mem_toDecimal (by rw [digits]; simp)
  have minus : first = 45 := by
    simp only [encodeBulkString, digits] at same
    have bytes : ascii "$-1\r\n" = [36, 45, 49, 13, 10] := by decide +kernel
    rw [bytes] at same
    have dollar : ascii "$" = [36] := by decide +kernel
    simp only [dollar, List.cons_append, List.nil_append, List.cons.injEq] at same
    exact same.2.1
  subst minus
  revert digit
  decide

theorem encodeBulkString_ne_error (value message : Bytes) :
    encodeBulkString value ≠ ascii "-ERR " ++ message := by
  intro same
  have dollar : ascii "$" = [36] := by decide +kernel
  have minus : ascii "-ERR " = [45, 69, 82, 82, 32] := by decide +kernel
  simp [encodeBulkString, dollar, minus] at same

/-! ### One request over either protocol -/

theorem setReply_matches {result : CommandResult}
    (ends : result = errorResult .invalidKey kEmptyKeyMessage ∨ result = ⟨.ok, none, []⟩) :
    Answer.Matches
      (.grpcSet (CacheServiceImpl.setReply result).1 (CacheServiceImpl.setReply result).2)
      (.resp (encodeResult result)) := by
  rcases ends with rfl | rfl
  · simp only [Answer.Matches]
    decide +kernel
  · simp only [Answer.Matches]
    decide +kernel

theorem encodeResult_invalidKey : encodeResult (errorResult .invalidKey kEmptyKeyMessage) =
    ascii "-ERR key must not be empty\r\n" := by decide +kernel

theorem encodeBulkString_ne_invalidKey (value : Bytes) :
    encodeBulkString value ≠ ascii "-ERR key must not be empty\r\n" := by
  have split : ascii "-ERR key must not be empty\r\n" =
      ascii "-ERR " ++ ascii "key must not be empty\r\n" := by decide +kernel
  rw [split]
  exact encodeBulkString_ne_error value _

theorem getReply_matches {result : CommandResult}
    (ends : result = errorResult .invalidKey kEmptyKeyMessage ∨ result = ⟨.notFound, none, []⟩ ∨
      ∃ value, result = ⟨.ok, some value, []⟩) :
    Answer.Matches
      (.grpcGet (CacheServiceImpl.getReply result).1 (CacheServiceImpl.getReply result).2)
      (.resp (encodeResult result)) := by
  rcases ends with rfl | rfl | ⟨value, rfl⟩
  · rw [encodeResult_invalidKey]
    refine ⟨fun value => ?_, by decide +kernel, by decide +kernel⟩
    simp [CacheServiceImpl.getReply, errorResult, (encodeBulkString_ne_invalidKey value).symm]
  · have reply : encodeResult ⟨.notFound, none, []⟩ = ascii "$-1\r\n" := rfl
    rw [reply]
    refine ⟨fun value => ?_, by decide +kernel, by decide +kernel⟩
    simp [CacheServiceImpl.getReply, (encodeBulkString_ne_nil_reply value).symm]
  · have reply : encodeResult ⟨.ok, some value, []⟩ = encodeBulkString value := rfl
    rw [reply]
    refine ⟨fun value' => ?_, ?_, ?_⟩
    · simp [CacheServiceImpl.getReply, encodeBulkString_injective.eq_iff]
    · simp [CacheServiceImpl.getReply, encodeBulkString_ne_nil_reply]
    · simp [CacheServiceImpl.getReply, Status.success, encodeBulkString_ne_invalidKey]

/-- A gRPC request and a RESP command for it do the same to the store. -/
theorem Ingress.Translates.handle {request command : Ingress} {store : ConcurrentStore cfg}
    (translates : request.Translates command) (rep : store.Rep) (clock : Nat → Int) :
    ∃ after answer reply, request.handle store clock = some (after, answer) ∧
      command.handle store clock = some (after, reply) ∧ after.Rep ∧ answer.Matches reply := by
  cases translates with
  | set request spelled =>
    obtain ⟨after, result, dispatched, rep', ends⟩ :=
      dispatchCommand_set rep request.key request.value clock
    have same := dispatchCommand_congr ((spells_set.mp spelled).trans toUpper_set.symm)
      [request.key, request.value] store clock
    refine ⟨after, _, _, ?_, ?_, rep', setReply_matches ends⟩
    · simp only [Ingress.handle, CacheServiceImpl.set, dispatched, Option.map_some]
    · simp only [Ingress.handle, executeCommand, same, dispatched, Option.map_some]
  | get request spelled =>
    obtain ⟨after, result, dispatched, rep', ends⟩ := dispatchCommand_get rep request.key clock
    have same := dispatchCommand_congr ((spells_get.mp spelled).trans toUpper_get.symm)
      [request.key] store clock
    refine ⟨after, _, _, ?_, ?_, rep', getReply_matches ends⟩
    · simp only [Ingress.handle, CacheServiceImpl.get, dispatched, Option.map_some]
    · simp only [Ingress.handle, executeCommand, same, dispatched, Option.map_some]

/-- Every request is answered. -/
theorem Ingress.handle_total (request : Ingress) {store : ConcurrentStore cfg} (rep : store.Rep)
    (clock : Nat → Int) :
    ∃ after answer, request.handle store clock = some (after, answer) ∧ after.Rep := by
  cases request with
  | resp cmd =>
    obtain ⟨after, reply, executed, rep'⟩ := executeCommand_total rep cmd clock
    exact ⟨after, .resp reply, by simp [Ingress.handle, executed], rep'⟩
  | grpcSet request =>
    have spelled : spells (ascii "SET") (ascii "SET") := by decide +kernel
    obtain ⟨after, answer, -, handled, -, rep', -⟩ :=
      (Ingress.Translates.set request spelled).handle rep clock
    exact ⟨after, answer, handled, rep'⟩
  | grpcGet request =>
    have spelled : spells (ascii "GET") (ascii "GET") := by decide +kernel
    obtain ⟨after, answer, -, handled, -, rep', -⟩ :=
      (Ingress.Translates.get request spelled).handle rep clock
    exact ⟨after, answer, handled, rep'⟩

theorem Ingress.Translates.asymm {a b : Ingress} (forth : a.Translates b) : ¬b.Translates a := by
  intro back
  cases forth <;> cases back

theorem Ingress.Translates.ne {a b : Ingress} (forth : a.Translates b) : a ≠ b := by
  rintro rfl
  exact forth.asymm forth

theorem Ingress.Alike.handle {a b : Ingress} {store : ConcurrentStore cfg} (alike : a.Alike b)
    (rep : store.Rep) (clock : Nat → Int) :
    ∃ after answer answer', a.handle store clock = some (after, answer) ∧
      b.handle store clock = some (after, answer') ∧ after.Rep ∧
        Corresponds (a, answer) (b, answer') := by
  rcases alike with rfl | forth | back
  · obtain ⟨after, answer, handled, rep'⟩ := a.handle_total rep clock
    exact ⟨after, answer, answer, handled, handled, rep', fun _ => rfl,
      fun loop => absurd loop loop.asymm, fun loop => absurd loop loop.asymm⟩
  · obtain ⟨after, answer, reply, handled, executed, rep', agree⟩ := forth.handle rep clock
    exact ⟨after, answer, reply, handled, executed, rep', fun same => absurd same forth.ne,
      fun _ => agree, fun back => absurd back forth.asymm⟩
  · obtain ⟨after, answer, reply, handled, executed, rep', agree⟩ := back.handle rep clock
    exact ⟨after, reply, answer, executed, handled, rep', fun same => absurd same.symm back.ne,
      fun forth => absurd forth back.asymm, fun _ => agree⟩

/-- Requests may change the protocol: the store after any sequence of requests, and the answers to
all requests that stay as they are, are the same, and a request that comes over the other protocol
is answered in the terms of that protocol. -/
theorem protocols_interchange {store : ConcurrentStore cfg}
    {requests requests' : List (Ingress × (Nat → Int))} (rep : store.Rep)
    (alike : List.Forall₂ (fun a b => a.1.Alike b.1 ∧ a.2 = b.2) requests requests') :
    ∃ after answers answers', handleAll store requests = some (after, answers) ∧
      handleAll store requests' = some (after, answers') ∧
        List.Forall₂ Corresponds answers answers' := by
  induction alike generalizing store with
  | nil => exact ⟨store, [], [], rfl, rfl, .nil⟩
  | @cons a b rest rest' first _ ih =>
    obtain ⟨request, clock⟩ := a
    obtain ⟨request', clock'⟩ := b
    obtain ⟨alike, rfl⟩ := first
    obtain ⟨middle, answer, answer', handled, handled', rep', agree⟩ := alike.handle rep clock
    obtain ⟨after, answers, answers', ran, ran', agrees⟩ := ih rep'
    refine ⟨after, _, _, ?_, ?_, .cons agree agrees⟩
    · simp only [handleAll, handled, Option.bind_some, ran, Option.map_some]
    · simp only [handleAll, handled', Option.bind_some, ran', Option.map_some]

/-- A key that is written over one protocol and read over the other. -/
theorem protocols_interchange_twice : ∃ after answers answers',
    handleAll (ConcurrentStore.new ⟨4, 1, fun _ => 0⟩)
        [(.grpcSet ⟨ascii "foo", ascii "bar"⟩, fun _ => 0),
          (.resp ⟨ascii "get", [ascii "foo"]⟩, fun _ => 1)] = some (after, answers) ∧
      handleAll (ConcurrentStore.new ⟨4, 1, fun _ => 0⟩)
        [(.resp ⟨ascii "Set", [ascii "foo", ascii "bar"]⟩, fun _ => 0),
          (.grpcGet ⟨ascii "foo"⟩, fun _ => 1)] = some (after, answers') ∧
      List.Forall₂ Corresponds answers answers' := by
  refine protocols_interchange (ConcurrentStore.new_rep _) (.cons ⟨?_, rfl⟩ (.cons ⟨?_, rfl⟩ .nil))
  · exact .inr (.inl (.set ⟨ascii "foo", ascii "bar"⟩ (by decide +kernel)))
  · exact .inr (.inr (.get ⟨ascii "foo"⟩ (by decide +kernel)))

end

end DistributedCache.Protocol

import DistributedCache.Core.Sequential
import DistributedCache.Protocol.RespParser

/-! The commands `SET` and `GET` on the store, the replies that the RESP front end sends for them,
and the interpreter over a map that they implement. -/

namespace DistributedCache.Server

open DistributedCache.Core DistributedCache.Protocol Lib

inductive CommandStatus
  | ok
  | notFound
  | error
  | invalidKey
  | unknownCommand
deriving DecidableEq, Repr

structure CommandResult where
  status : CommandStatus
  value : Option Bytes
  message : Bytes
deriving DecidableEq, Repr

def kEmptyKeyMessage : Bytes := ascii "key must not be empty"

/-- `ToUpper`, with `std::toupper` of the "C" locale. -/
def toUpper (value : Bytes) : Bytes :=
  value.map fun ch => if 97 ≤ ch ∧ ch ≤ 122 then ch - 32 else ch

def errorResult (status : CommandStatus) (message : Bytes) : CommandResult :=
  ⟨status, none, message⟩

section

variable {cfg : Config}

/-- `DispatchCommand`: the store after the command and the result. -/
def dispatchCommand (command : Bytes) (args : List Bytes) (store : ConcurrentStore cfg)
    (clock : Nat → Int) : Option (ConcurrentStore cfg × CommandResult) :=
  let name := toUpper command
  if name = ascii "SET" then
    match args with
    | [key, value] =>
      if key = [] then some (store, errorResult .invalidKey kEmptyKeyMessage)
      else (store.set key value none clock).map fun after => (after, ⟨.ok, none, []⟩)
    | _ => some (store, errorResult .error (ascii "wrong number of arguments"))
  else if name = ascii "GET" then
    match args with
    | [key] =>
      if key = [] then some (store, errorResult .invalidKey kEmptyKeyMessage)
      else
        let (after, value) := store.get key clock
        match value with
        | none => some (after, ⟨.notFound, none, []⟩)
        | some value => some (after, ⟨.ok, some value, []⟩)
    | _ => some (store, errorResult .error (ascii "wrong number of arguments"))
  else some (store, errorResult .unknownCommand (ascii "unknown command"))

def encodeBulkString (value : Bytes) : Bytes :=
  ascii "$" ++ toDecimal value.length ++ crlf ++ value ++ crlf

/-- The reply for a result. -/
def encodeResult (result : CommandResult) : Bytes :=
  match result.status with
  | .ok =>
    match result.value with
    | some value => encodeBulkString value
    | none => ascii "+OK\r\n"
  | .notFound => ascii "$-1\r\n"
  | .error | .invalidKey | .unknownCommand => ascii "-ERR " ++ result.message ++ crlf

/-- `ExecuteCommand`: the store after the command and the reply. -/
def executeCommand (cmd : RESPCommand) (store : ConcurrentStore cfg) (clock : Nat → Int) :
    Option (ConcurrentStore cfg × Bytes) :=
  (dispatchCommand cmd.name cmd.args store clock).map fun r => (r.1, encodeResult r.2)

/-- Every command returns, and keeps the representation invariant. -/
theorem executeCommand_total {store : ConcurrentStore cfg} (rep : store.Rep) (cmd : RESPCommand)
    (clock : Nat → Int) :
    ∃ after reply, executeCommand cmd store clock = some (after, reply) ∧ after.Rep := by
  unfold executeCommand dispatchCommand
  dsimp only
  split
  · split
    · rename_i key value args
      split
      · exact ⟨store, _, rfl, rep⟩
      · obtain ⟨after, returned, rep'⟩ := ConcurrentStore.set_total rep key value none clock
        exact ⟨after, _, by rw [returned]; rfl, rep'⟩
    · exact ⟨store, _, rfl, rep⟩
  · split
    · split
      · rename_i key args
        split
        · exact ⟨store, _, rfl, rep⟩
        · have rep' := ConcurrentStore.get_rep rep key clock
          split
          · exact ⟨_, _, rfl, rep'⟩
          · exact ⟨_, _, rfl, rep'⟩
      · exact ⟨store, _, rfl, rep⟩
    · exact ⟨store, _, rfl, rep⟩

end

/-! ### The interpreter over a map -/

/-- `name` spells the upper-case `word` in letters of any case. -/
def spells (word name : Bytes) : Prop := List.Forall₂ (fun u b => b = u ∨ b = u + 32) word name

instance (word name : Bytes) : Decidable (spells word name) :=
  inferInstanceAs (Decidable (List.Forall₂ _ _ _))

/-- The line for a command that is neither a `SET` nor a `GET` with its arguments and a key. -/
def errorLine (cmd : RESPCommand) : Bytes :=
  ascii "-ERR " ++
    (if ¬spells (ascii "SET") cmd.name ∧ ¬spells (ascii "GET") cmd.name then
        ascii "unknown command"
      else if (spells (ascii "SET") cmd.name ∧ cmd.args.length = 2) ∨
          (spells (ascii "GET") cmd.name ∧ cmd.args.length = 1) then
        ascii "key must not be empty"
      else ascii "wrong number of arguments") ++ crlf

/-- The effect of a command on a map, and its reply. -/
def interpret (map : Bytes → Option Bytes) (cmd : RESPCommand) : (Bytes → Option Bytes) × Bytes :=
  match cmd.args with
  | [key, value] =>
    if spells (ascii "SET") cmd.name ∧ key ≠ [] then
      (Function.update map key (some value), ascii "+OK\r\n")
    else (map, errorLine cmd)
  | [key] =>
    if spells (ascii "GET") cmd.name ∧ key ≠ [] then
      match map key with
      | some value => (map, encodeBulkString value)
      | none => (map, ascii "$-1\r\n")
    else (map, errorLine cmd)
  | _ => (map, errorLine cmd)

/-- The effect of a list of commands, and their replies. -/
def interpretAll (map : Bytes → Option Bytes) : List RESPCommand →
    (Bytes → Option Bytes) × List Bytes
  | [] => (map, [])
  | cmd :: cmds =>
    let first := interpret map cmd
    let rest := interpretAll first.1 cmds
    (rest.1, first.2 :: rest.2)

theorem upper_byte_iff {u b : UInt8} (upper : 65 ≤ u ∧ u ≤ 90) :
    (b = u ∨ b = u + 32) ↔ (if 97 ≤ b ∧ b ≤ 122 then b - 32 else b) = u := by
  have range := UInt8.toNat_lt b
  split
  · rename_i lower
    simp only [UInt8.le_iff_toNat_le, ← UInt8.toNat_inj, UInt8.toNat_add, UInt8.toNat_sub] at *
    simp at *
    omega
  · rename_i other
    simp only [UInt8.le_iff_toNat_le, ← UInt8.toNat_inj, UInt8.toNat_add] at *
    simp at *
    omega

theorem spells_iff {word name : Bytes} (upper : ∀ u ∈ word, 65 ≤ u ∧ u ≤ 90) :
    spells word name ↔ toUpper name = word := by
  induction word generalizing name with
  | nil =>
    cases name <;> simp [spells, toUpper]
  | cons u word ih =>
    cases name with
    | nil => simp [spells, toUpper]
    | cons b name =>
      have tail := @ih name fun v member => upper v (by simp [member])
      simp only [spells, toUpper] at tail
      simp only [spells, toUpper, List.forall₂_cons, List.map_cons, List.cons.injEq, tail,
        upper_byte_iff (upper u (by simp))]

theorem spells_set {name : Bytes} : spells (ascii "SET") name ↔ toUpper name = ascii "SET" :=
  spells_iff (by decide +kernel)

theorem spells_get {name : Bytes} : spells (ascii "GET") name ↔ toUpper name = ascii "GET" :=
  spells_iff (by decide +kernel)

/-- The command is a `SET` or a `GET` with its arguments and a key. -/
def Accepted (cmd : RESPCommand) : Prop :=
  (spells (ascii "SET") cmd.name ∧ ∃ key value, key ≠ [] ∧ cmd.args = [key, value]) ∨
    (spells (ascii "GET") cmd.name ∧ ∃ key, key ≠ [] ∧ cmd.args = [key])

theorem interpret_refused {cmd : RESPCommand} (refused : ¬Accepted cmd)
    (map : Bytes → Option Bytes) : interpret map cmd = (map, errorLine cmd) := by
  obtain ⟨name, args⟩ := cmd
  unfold interpret
  dsimp only
  split
  · rename_i key value
    rw [if_neg]
    rintro ⟨isSet, nonempty⟩
    exact refused (.inl ⟨isSet, key, value, nonempty, rfl⟩)
  · rename_i key
    rw [if_neg]
    rintro ⟨isGet, nonempty⟩
    exact refused (.inr ⟨isGet, key, nonempty, rfl⟩)
  · rfl

theorem set_ne_get : ascii "SET" ≠ ascii "GET" := by decide

section

variable {cfg : Config} {store : ConcurrentStore cfg}

/-- A command that is not accepted leaves the store as it is. -/
theorem executeCommand_refused {cmd : RESPCommand} (refused : ¬Accepted cmd) (clock : Nat → Int) :
    executeCommand cmd store clock = some (store, errorLine cmd) := by
  obtain ⟨name, args⟩ := cmd
  simp only [Accepted, spells_set, spells_get] at refused
  simp only [executeCommand, dispatchCommand, errorLine, spells_set, spells_get]
  by_cases isSet : toUpper name = ascii "SET"
  · match args with
    | [key, value] =>
      obtain rfl : key = [] := by
        by_contra nonempty
        exact refused (.inl ⟨isSet, key, value, nonempty, rfl⟩)
      simp [isSet, encodeResult, errorResult, kEmptyKeyMessage]
    | [] | [_] | _ :: _ :: _ :: _ => simp [isSet, set_ne_get, encodeResult, errorResult]
  · by_cases isGet : toUpper name = ascii "GET"
    · match args with
      | [key] =>
        obtain rfl : key = [] := by
          by_contra nonempty
          exact refused (.inr ⟨isGet, key, nonempty, rfl⟩)
        simp [isGet, set_ne_get.symm, encodeResult, errorResult, kEmptyKeyMessage]
      | [] | _ :: _ :: _ => simp [isGet, set_ne_get.symm, encodeResult, errorResult]
    · simp [isSet, isGet, encodeResult, errorResult]

/-- On an unbounded store without expiring entries every command acts as the interpreter does on
the content. -/
theorem executeCommand_interpret (unbounded : cfg.maxEntries = 0) (persistent : store.Persistent)
    (cmd : RESPCommand) (clock : Nat → Int) :
    ∃ after, executeCommand cmd store clock = some (after, (interpret store.content cmd).2) ∧
      after.Persistent ∧ after.content = (interpret store.content cmd).1 := by
  by_cases accepted : Accepted cmd
  · obtain ⟨name, args⟩ := cmd
    rcases accepted with ⟨word, key, value, nonempty, rfl⟩ | ⟨word, key, nonempty, rfl⟩
    · have isSet := spells_set.mp word
      obtain ⟨after, returned, persistent', content⟩ :=
        ConcurrentStore.set_content unbounded persistent key value clock
      refine ⟨after, ?_, persistent', ?_⟩
      · simp [executeCommand, dispatchCommand, interpret, word, isSet, nonempty, encodeResult,
          returned]
      · simp [interpret, word, nonempty, content]
    · have isGet := spells_get.mp word
      obtain ⟨answer, persistent', content⟩ := ConcurrentStore.get_content persistent key clock
      refine ⟨(store.get key clock).1, ?_, persistent', ?_⟩
      · cases value : store.content key <;>
          simp [executeCommand, dispatchCommand, interpret, word, isGet, set_ne_get.symm, nonempty,
            encodeResult, answer, value]
      · cases value : store.content key <;> simp [interpret, word, nonempty, content, value]
  · rw [executeCommand_refused accepted, interpret_refused accepted]
    exact ⟨store, rfl, persistent, rfl⟩

end

end DistributedCache.Server

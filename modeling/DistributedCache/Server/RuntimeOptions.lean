import DistributedCache.Cluster.Routing
import DistributedCache.Lib.Decimal
import Mathlib.Tactic.Common

/-! The command line of the server and what `main` does before its threads start.  Each argument
is one setting, later settings replace earlier ones, and every configuration that `ParseArgs`
accepts passes the bootstrap of the hash ring. -/

namespace DistributedCache.Server

open DistributedCache.Cluster Lib

structure NodeConfig where
  shardCount : Int
  listenPort : Int
  grpcPort : Int
  metricsPort : Int
  nodeId : Bytes
  virtualNodes : Int
  maxRespClients : Int
  respIdleTimeoutMs : Int
deriving DecidableEq, Repr

def NodeConfig.default : NodeConfig := ⟨64, 6379, 50051, 9100, ascii "local", 128, 256, 30000⟩

structure RuntimeOptions where
  config : NodeConfig
  dryRun : Bool
  runFor : Option Int
deriving DecidableEq, Repr

def RuntimeOptions.default : RuntimeOptions := ⟨.default, false, none⟩

def kMaxPort : Int := 65535

/-- `std::numeric_limits<int>::min()` and `max()`. -/
def intMin : Int := -2 ^ 31

def intMax : Int := 2 ^ 31 - 1

/-- `arg.substr(flag.size())` if `arg` starts with `flag`. -/
def stripFlag (flag arg : Bytes) : Option Bytes :=
  if flag.isPrefixOf arg then some (arg.drop flag.length) else none

def parseNumber (text : Bytes) : Option Int :=
  if text = [] then none
  else match fromChars text with
    | .ok value length => if length = text.length then some value else none
    | _ => none

def parseIntFlag (arg flag : Bytes) : Option Int :=
  (stripFlag flag arg).bind fun text => (parseNumber text).bind fun value =>
    if value < intMin ∨ intMax < value then none else some value

def parseDurationFlag (arg flag : Bytes) : Option Int :=
  (stripFlag flag arg).bind fun text => (parseNumber text).bind fun value =>
    if value < 0 then none else some value

def parseStringFlag (arg flag : Bytes) : Option Bytes := stripFlag flag arg

/-- The body of the loop of `ParseArgs`, with the text that it prints when it gives up. -/
def parseArg (options : RuntimeOptions) (arg : Bytes) : Except Bytes RuntimeOptions :=
  let config := options.config
  if arg = ascii "--dry-run" then .ok { options with dryRun := true }
  else if let some ms := parseDurationFlag arg (ascii "--run-for-ms=") then
    .ok { options with runFor := some ms }
  else if let some n := parseIntFlag arg (ascii "--shard-count=") then
    .ok { options with config := { config with shardCount := n } }
  else if let some n := parseIntFlag arg (ascii "--virtual-nodes=") then
    .ok { options with config := { config with virtualNodes := n } }
  else if let some n := parseIntFlag arg (ascii "--max-resp-clients=") then
    .ok { options with config := { config with maxRespClients := n } }
  else if let some n := (parseIntFlag arg (ascii "--listen-port=")).or
      (parseIntFlag arg (ascii "--resp-port=")) then
    .ok { options with config := { config with listenPort := n } }
  else if let some n := parseIntFlag arg (ascii "--grpc-port=") then
    .ok { options with config := { config with grpcPort := n } }
  else if let some n := parseIntFlag arg (ascii "--metrics-port=") then
    .ok { options with config := { config with metricsPort := n } }
  else if let some ms := parseDurationFlag arg (ascii "--resp-idle-timeout-ms=") then
    if intMax < ms then .error (ascii "resp-idle-timeout-ms out of range\n")
    else .ok { options with config := { config with respIdleTimeoutMs := ms } }
  else if let some text := parseStringFlag arg (ascii "--node-id=") then
    .ok { options with config := { config with nodeId := text } }
  else .error (ascii "Unknown argument: " ++ arg ++ ascii "\n")

def portInRange (port : Int) : Bool := decide (0 ≤ port ∧ port ≤ kMaxPort)

/-- The checks after the loop of `ParseArgs`. -/
def checkOptions (options : RuntimeOptions) : Except Bytes RuntimeOptions :=
  let config := options.config
  if config.shardCount ≤ 0 ∨ config.virtualNodes ≤ 0 then
    .error (ascii "Invalid shard or virtual node count\n")
  else if ¬portInRange config.listenPort ∨ ¬portInRange config.grpcPort ∨
      ¬portInRange config.metricsPort then
    .error (ascii "Ports must be between 0 and 65535\n")
  else if config.maxRespClients ≤ 0 then .error (ascii "max-resp-clients must be positive\n")
  else if config.respIdleTimeoutMs ≤ 0 then
    .error (ascii "resp-idle-timeout-ms must be positive\n")
  else if config.nodeId = [] then .error (ascii "node-id must not be empty\n")
  else .ok options

/-- `ParseArgs` on the arguments after the program's name. -/
def parseArgs (args : List Bytes) : Except Bytes RuntimeOptions :=
  (args.foldlM parseArg .default).bind checkOptions

/-! ### The language of the arguments -/

/-- What one argument sets. -/
inductive Setting
  | dryRun
  | runFor (ms : Int)
  | shardCount (n : Int)
  | virtualNodes (n : Int)
  | maxRespClients (n : Int)
  | listenPort (n : Int)
  | grpcPort (n : Int)
  | metricsPort (n : Int)
  | respIdleTimeoutMs (ms : Int)
  | nodeId (text : Bytes)

def Setting.apply (options : RuntimeOptions) : Setting → RuntimeOptions
  | dryRun => { options with dryRun := true }
  | runFor ms => { options with runFor := some ms }
  | shardCount n => { options with config := { options.config with shardCount := n } }
  | virtualNodes n => { options with config := { options.config with virtualNodes := n } }
  | maxRespClients n => { options with config := { options.config with maxRespClients := n } }
  | listenPort n => { options with config := { options.config with listenPort := n } }
  | grpcPort n => { options with config := { options.config with grpcPort := n } }
  | metricsPort n => { options with config := { options.config with metricsPort := n } }
  | respIdleTimeoutMs ms =>
    { options with config := { options.config with respIdleTimeoutMs := ms } }
  | nodeId text => { options with config := { options.config with nodeId := text } }

/-- A numeral for an `int`. -/
def IntText (text : Bytes) (n : Int) : Prop := Numeral text n ∧ intMin ≤ n ∧ n ≤ intMax

/-- A numeral for a duration in milliseconds. -/
def DurationText (text : Bytes) (ms : Int) : Prop := Numeral text ms ∧ 0 ≤ ms

/-- The arguments that `ParseArgs` knows. -/
inductive Denotes : Bytes → Setting → Prop
  | dryRun : Denotes (ascii "--dry-run") .dryRun
  | runFor {text : Bytes} {ms : Int} : DurationText text ms →
      Denotes (ascii "--run-for-ms=" ++ text) (.runFor ms)
  | shardCount {text : Bytes} {n : Int} : IntText text n →
      Denotes (ascii "--shard-count=" ++ text) (.shardCount n)
  | virtualNodes {text : Bytes} {n : Int} : IntText text n →
      Denotes (ascii "--virtual-nodes=" ++ text) (.virtualNodes n)
  | maxRespClients {text : Bytes} {n : Int} : IntText text n →
      Denotes (ascii "--max-resp-clients=" ++ text) (.maxRespClients n)
  | listenPort {text : Bytes} {n : Int} : IntText text n →
      Denotes (ascii "--listen-port=" ++ text) (.listenPort n)
  | respPort {text : Bytes} {n : Int} : IntText text n →
      Denotes (ascii "--resp-port=" ++ text) (.listenPort n)
  | grpcPort {text : Bytes} {n : Int} : IntText text n →
      Denotes (ascii "--grpc-port=" ++ text) (.grpcPort n)
  | metricsPort {text : Bytes} {n : Int} : IntText text n →
      Denotes (ascii "--metrics-port=" ++ text) (.metricsPort n)
  | respIdleTimeoutMs {text : Bytes} {ms : Int} : DurationText text ms → ms ≤ intMax →
      Denotes (ascii "--resp-idle-timeout-ms=" ++ text) (.respIdleTimeoutMs ms)
  | nodeId (text : Bytes) : Denotes (ascii "--node-id=" ++ text) (.nodeId text)

/-- A configuration that the checks after the loop accept. -/
structure RuntimeOptions.Valid (options : RuntimeOptions) : Prop where
  shardCount : 0 < options.config.shardCount
  virtualNodes : 0 < options.config.virtualNodes
  listenPort : 0 ≤ options.config.listenPort ∧ options.config.listenPort ≤ kMaxPort
  grpcPort : 0 ≤ options.config.grpcPort ∧ options.config.grpcPort ≤ kMaxPort
  metricsPort : 0 ≤ options.config.metricsPort ∧ options.config.metricsPort ≤ kMaxPort
  maxRespClients : 0 < options.config.maxRespClients
  respIdleTimeoutMs : 0 < options.config.respIdleTimeoutMs
  nodeId : options.config.nodeId ≠ []

theorem stripFlag_eq_some {flag arg text : Bytes} :
    stripFlag flag arg = some text ↔ arg = flag ++ text := by
  unfold stripFlag
  constructor
  · intro stripped
    split at stripped
    · rename_i starts
      obtain ⟨rest, rfl⟩ := List.isPrefixOf_iff_prefix.mp starts
      rw [List.drop_left] at stripped
      rw [Option.some.inj stripped]
    · cases stripped
  · rintro rfl
    have starts : flag.isPrefixOf (flag ++ text) = true :=
      List.isPrefixOf_iff_prefix.mpr (List.prefix_append flag text)
    rw [if_pos starts, List.drop_left]

theorem parseNumber_eq_some {text : Bytes} {value : Int} :
    parseNumber text = some value ↔ Numeral text value := by
  rw [← fromChars_eq_ok]
  unfold parseNumber
  by_cases empty : text = []
  · subst empty
    simp [fromChars]
  · rw [if_neg empty]
    cases read : fromChars text with
    | ok v n =>
      by_cases whole : n = text.length
      · simp [whole]
      · simp [whole]
    | _ => simp

theorem parseIntFlag_eq_some {arg flag : Bytes} {n : Int} :
    parseIntFlag arg flag = some n ↔ ∃ text, arg = flag ++ text ∧ IntText text n := by
  simp only [parseIntFlag, Option.bind_eq_some_iff, stripFlag_eq_some, parseNumber_eq_some, IntText]
  refine exists_congr fun text => and_congr_right fun _ => ?_
  constructor
  · rintro ⟨value, numeral, range⟩
    split at range
    · cases range
    · cases range
      exact ⟨numeral, by omega, by omega⟩
  · rintro ⟨numeral, low, high⟩
    exact ⟨n, numeral, if_neg (by omega)⟩

theorem parseDurationFlag_eq_some {arg flag : Bytes} {ms : Int} :
    parseDurationFlag arg flag = some ms ↔ ∃ text, arg = flag ++ text ∧ DurationText text ms := by
  simp only [parseDurationFlag, Option.bind_eq_some_iff, stripFlag_eq_some, parseNumber_eq_some,
    DurationText]
  refine exists_congr fun text => and_congr_right fun _ => ?_
  constructor
  · rintro ⟨value, numeral, range⟩
    split at range
    · cases range
    · cases range
      exact ⟨numeral, by omega⟩
  · rintro ⟨numeral, low⟩
    exact ⟨ms, numeral, if_neg (by omega)⟩

/-- Two flags differ in a byte that both of them have. -/
def clash (flag other : Bytes) : Bool := (flag.zip other).any fun p => p.1 != p.2

theorem stripFlag_clash {flag other : Bytes} (differ : clash flag other = true) (text : Bytes) :
    stripFlag flag (other ++ text) = none := by
  rw [Option.eq_none_iff_forall_not_mem]
  intro rest stripped
  have same := stripFlag_eq_some.mp stripped
  obtain ⟨⟨a, b⟩, member, different⟩ := List.any_eq_true.mp differ
  obtain ⟨n, small, entry⟩ := List.mem_iff_getElem.mp member
  simp only [List.length_zip, Nat.lt_min] at small
  rw [List.getElem_zip, Prod.mk.injEq] at entry
  have here := congrArg (fun xs : Bytes => xs[n]?) same
  simp only [List.getElem?_append_left small.1, List.getElem?_append_left small.2,
    List.getElem?_eq_getElem small.1, List.getElem?_eq_getElem small.2, Option.some.injEq] at here
  simp [← entry.1, ← entry.2, here] at different

theorem append_ne_of_clash {flag other : Bytes} (differ : clash flag other = true) (text : Bytes) :
    other ++ text ≠ flag := by
  intro same
  have stripped := stripFlag_clash differ text
  rw [same, stripFlag_eq_some.mpr (List.append_nil flag).symm] at stripped
  cases stripped

theorem parseIntFlag_clash {flag other : Bytes} (differ : clash flag other = true) (text : Bytes) :
    parseIntFlag (other ++ text) flag = none := by
  rw [parseIntFlag, stripFlag_clash differ, Option.bind_none]

theorem parseDurationFlag_clash {flag other : Bytes} (differ : clash flag other = true)
    (text : Bytes) : parseDurationFlag (other ++ text) flag = none := by
  rw [parseDurationFlag, stripFlag_clash differ, Option.bind_none]

theorem parseIntFlag_append {text flag : Bytes} {n : Int} (read : IntText text n) :
    parseIntFlag (flag ++ text) flag = some n :=
  parseIntFlag_eq_some.mpr ⟨text, rfl, read⟩

theorem parseDurationFlag_append {text flag : Bytes} {ms : Int} (read : DurationText text ms) :
    parseDurationFlag (flag ++ text) flag = some ms :=
  parseDurationFlag_eq_some.mpr ⟨text, rfl, read⟩

/-- An argument that the loop accepts denotes what the loop sets. -/
theorem denotes_of_parseArg {options after : RuntimeOptions} {arg : Bytes}
    (parsed : parseArg options arg = .ok after) :
    ∃ setting, Denotes arg setting ∧ after = setting.apply options := by
  unfold parseArg at parsed
  dsimp only at parsed
  split at parsed
  · rename_i isDryRun
    cases parsed
    exact ⟨.dryRun, isDryRun ▸ .dryRun, rfl⟩
  split at parsed
  · rename_i ms read
    cases parsed
    obtain ⟨text, rfl, duration⟩ := parseDurationFlag_eq_some.mp read
    exact ⟨_, .runFor duration, rfl⟩
  split at parsed
  · rename_i n read
    cases parsed
    obtain ⟨text, rfl, number⟩ := parseIntFlag_eq_some.mp read
    exact ⟨_, .shardCount number, rfl⟩
  split at parsed
  · rename_i n read
    cases parsed
    obtain ⟨text, rfl, number⟩ := parseIntFlag_eq_some.mp read
    exact ⟨_, .virtualNodes number, rfl⟩
  split at parsed
  · rename_i n read
    cases parsed
    obtain ⟨text, rfl, number⟩ := parseIntFlag_eq_some.mp read
    exact ⟨_, .maxRespClients number, rfl⟩
  split at parsed
  · rename_i n read
    cases parsed
    rcases Option.or_eq_some_iff.mp read with read | ⟨-, read⟩
    · obtain ⟨text, rfl, number⟩ := parseIntFlag_eq_some.mp read
      exact ⟨_, .listenPort number, rfl⟩
    · obtain ⟨text, rfl, number⟩ := parseIntFlag_eq_some.mp read
      exact ⟨_, .respPort number, rfl⟩
  split at parsed
  · rename_i n read
    cases parsed
    obtain ⟨text, rfl, number⟩ := parseIntFlag_eq_some.mp read
    exact ⟨_, .grpcPort number, rfl⟩
  split at parsed
  · rename_i n read
    cases parsed
    obtain ⟨text, rfl, number⟩ := parseIntFlag_eq_some.mp read
    exact ⟨_, .metricsPort number, rfl⟩
  split at parsed
  · rename_i ms read
    obtain ⟨text, rfl, duration⟩ := parseDurationFlag_eq_some.mp read
    split at parsed
    · cases parsed
    · rename_i small
      cases parsed
      exact ⟨_, .respIdleTimeoutMs duration (Int.not_lt.mp small), rfl⟩
  split at parsed
  · rename_i text read
    cases parsed
    obtain rfl := stripFlag_eq_some.mp read
    exact ⟨_, .nodeId text, rfl⟩
  · cases parsed

theorem parseArg_of_denotes {arg : Bytes} {setting : Setting} (denotes : Denotes arg setting)
    (options : RuntimeOptions) : parseArg options arg = .ok (setting.apply options) := by
  cases denotes with
  | dryRun => rfl
  | runFor duration =>
    simp (disch := decide +kernel) only [parseArg, append_ne_of_clash, if_false,
      parseDurationFlag_append duration, Setting.apply]
  | shardCount number | virtualNodes number | maxRespClients number | listenPort number
  | respPort number | grpcPort number | metricsPort number =>
    simp (disch := decide +kernel) only [parseArg, append_ne_of_clash, if_false,
      parseDurationFlag_clash, parseIntFlag_clash, parseIntFlag_append number, Option.none_or,
      Option.some_or, Setting.apply]
  | respIdleTimeoutMs duration small =>
    simp (disch := decide +kernel) only [parseArg, append_ne_of_clash, if_false,
      parseDurationFlag_clash, parseIntFlag_clash, parseDurationFlag_append duration,
      Option.none_or, Int.not_lt.mpr small, Setting.apply]
  | nodeId text =>
    have named : parseStringFlag (ascii "--node-id=" ++ text) (ascii "--node-id=") = some text :=
      stripFlag_eq_some.mpr rfl
    simp (disch := decide +kernel) only [parseArg, append_ne_of_clash, if_false,
      parseDurationFlag_clash, parseIntFlag_clash, Option.none_or, named, Setting.apply]

theorem parseArg_eq_ok {options after : RuntimeOptions} {arg : Bytes} :
    parseArg options arg = .ok after ↔
      ∃ setting, Denotes arg setting ∧ after = setting.apply options := by
  refine ⟨denotes_of_parseArg, ?_⟩
  rintro ⟨setting, denotes, rfl⟩
  exact parseArg_of_denotes denotes options

/-- The loop of `ParseArgs` reads every argument as a setting and applies the settings in order. -/
theorem foldlM_parseArg {args : List Bytes} {options after : RuntimeOptions} :
    args.foldlM parseArg options = .ok after ↔ ∃ settings, List.Forall₂ Denotes args settings ∧
      after = settings.foldl Setting.apply options := by
  induction args generalizing options with
  | nil =>
    simp only [List.foldlM_nil, List.forall₂_nil_left_iff, exists_eq_left, List.foldl_nil]
    exact ⟨fun same => (Except.ok.inj same).symm, fun same => by rw [same]; rfl⟩
  | cons arg args ih =>
    rw [List.foldlM_cons]
    constructor
    · intro parsed
      cases first : parseArg options arg with
      | error text =>
        rw [first] at parsed
        cases parsed
      | ok middle =>
        rw [first] at parsed
        obtain ⟨setting, denotes, rfl⟩ := parseArg_eq_ok.mp first
        obtain ⟨settings, all, rfl⟩ := ih.mp parsed
        exact ⟨setting :: settings, .cons denotes all, rfl⟩
    · rintro ⟨settings, all, rfl⟩
      cases all with
      | cons denotes all =>
        rw [parseArg_of_denotes denotes]
        exact ih.mpr ⟨_, all, rfl⟩

theorem checkOptions_eq_ok {options after : RuntimeOptions} :
    checkOptions options = .ok after ↔ options.Valid ∧ after = options := by
  unfold checkOptions portInRange
  dsimp only
  constructor
  · intro checked
    split at checked
    · cases checked
    split at checked
    · cases checked
    split at checked
    · cases checked
    split at checked
    · cases checked
    split at checked
    · cases checked
    · rename_i counts ports clients idle named
      cases checked
      simp only [decide_eq_true_eq, not_or, not_not] at counts ports
      exact ⟨⟨by omega, by omega, ports.1, ports.2.1, ports.2.2, by omega, by omega, named⟩, rfl⟩
  · rintro ⟨valid, rfl⟩
    have counts : ¬(after.config.shardCount ≤ 0 ∨ after.config.virtualNodes ≤ 0) := by
      have := valid.shardCount
      have := valid.virtualNodes
      omega
    rw [if_neg counts, if_neg (by simp [valid.listenPort, valid.grpcPort, valid.metricsPort]),
      if_neg (Int.not_le.mpr valid.maxRespClients), if_neg (Int.not_le.mpr valid.respIdleTimeoutMs),
      if_neg valid.nodeId]

theorem parseArgs_settings {args : List Bytes} {options : RuntimeOptions}
    (parsed : parseArgs args = .ok options) :
    ∃ settings, List.Forall₂ Denotes args settings ∧
      options = settings.foldl Setting.apply .default ∧ options.Valid := by
  unfold parseArgs at parsed
  cases looped : args.foldlM parseArg RuntimeOptions.default with
  | error text =>
    rw [looped] at parsed
    cases parsed
  | ok middle =>
    rw [looped] at parsed
    obtain ⟨valid, rfl⟩ := checkOptions_eq_ok.mp parsed
    obtain ⟨settings, all, same⟩ := foldlM_parseArg.mp looped
    exact ⟨settings, all, same, valid⟩

/-- `ParseArgs` accepts exactly the command lines whose arguments are all settings and whose
settings, the later ones before the earlier ones, make a valid configuration. -/
theorem parseArgs_eq_ok {args : List Bytes} {options : RuntimeOptions} :
    parseArgs args = .ok options ↔ ∃ settings, List.Forall₂ Denotes args settings ∧
      options = settings.foldl Setting.apply .default ∧ options.Valid := by
  refine ⟨parseArgs_settings, ?_⟩
  rintro ⟨settings, all, same, valid⟩
  unfold parseArgs
  rw [foldlM_parseArg.mpr ⟨settings, all, same⟩]
  exact checkOptions_eq_ok.mpr ⟨valid, rfl⟩

/-! ### What `main` does before its threads start -/

/-- How `main` goes on: it returns an exit code after it has printed a text, an exception leaves it,
or it starts its threads. -/
inductive Startup
  | exit (code : Nat) (text : Bytes)
  | throws (thrown : StdException)
  | ready (options : RuntimeOptions) (ring : HashRing)

/-- `main` up to the start of its threads, if `AddNode` ends.  `grpcStarts` tells whether
`BuildAndStart` returns a server. -/
def startUp (args : List Bytes) (grpcStarts : Bool) : Option Startup :=
  match parseArgs args with
  | .error text => some (.exit 1 text)
  | .ok options =>
    (HashRing.new.addNode options.config.nodeId options.config.virtualNodes).map fun added =>
      match added.2 with
      | .error thrown => .throws thrown
      | .ok () =>
        if routeKeyToNode added.1 (ascii "bootstrap") = [] then
          .exit 1 (ascii "Failed to initialize hash ring\n")
        else if options.dryRun then .exit 0 []
        else if grpcStarts then .ready options added.1
        else .exit 1 (ascii "Failed to start gRPC server\n")

/-- A node that is alone on its ring owns every key. -/
theorem routeKeyToNode_alone {nodeId : Bytes} {virtualNodes : Int} {ring : HashRing}
    {answer : Except StdException Unit} (enough : 0 < virtualNodes)
    (added : HashRing.new.addNode nodeId virtualNodes = some (ring, answer)) :
    answer = .ok () ∧ ∀ key, routeKeyToNode ring key = nodeId := by
  rcases HashRing.addNode_cases added with ⟨few, -⟩ | ⟨-, returned, r, tokens, placed, rfl⟩
  · exact absurd few (Int.not_le.mpr enough)
  · refine ⟨returned, fun key => ?_⟩
    rw [routeKeyToNode, HashRing.ownerForKey_eq]
    exact HashRing.owner_placed_empty (placeTokens_placed placed) (by omega) rfl _

/-- When `AddNode` finds its tokens, `main` refuses the arguments with the text of `ParseArgs`, or
ends with code 0 in a dry run, or ends with code 1 when the gRPC server does not start, or starts
its threads, with a ring that routes every key to its own node: no exception of `AddNode` leaves it,
and the check of the ring never fails. -/
theorem startUp_cases {args : List Bytes} {grpcStarts : Bool} {startup : Startup}
    (ends : startUp args grpcStarts = some startup) :
    (∃ text, parseArgs args = .error text ∧ startup = .exit 1 text) ∨
      ∃ options ring, parseArgs args = .ok options ∧ options.Valid ∧
        (∀ key, routeKeyToNode ring key = options.config.nodeId) ∧
        startup =
          if options.dryRun then .exit 0 []
          else if grpcStarts then .ready options ring
          else .exit 1 (ascii "Failed to start gRPC server\n") := by
  unfold startUp at ends
  cases parsed : parseArgs args with
  | error text =>
    rw [parsed] at ends
    exact .inl ⟨text, rfl, (Option.some.inj ends).symm⟩
  | ok options =>
    rw [parsed] at ends
    obtain ⟨settings, -, -, valid⟩ := parseArgs_settings parsed
    obtain ⟨⟨ring, answer⟩, added, same⟩ := Option.map_eq_some_iff.mp ends
    obtain ⟨rfl, routes⟩ := routeKeyToNode_alone valid.virtualNodes added
    refine .inr ⟨options, ring, rfl, valid, routes, ?_⟩
    rw [← same]
    dsimp only
    rw [routes, if_neg valid.nodeId]

/-- One virtual node, the port given twice. -/
def oneTokenArgs : List Bytes :=
  [ascii "--resp-port=1", ascii "--virtual-nodes=1", ascii "--listen-port=7000"]

theorem oneTokenArgs_startUp : ∃ startup, startUp oneTokenArgs false = some startup ∧
    startup = .exit 1 (ascii "Failed to start gRPC server\n") ∧
    ((∃ text, parseArgs oneTokenArgs = .error text ∧ startup = .exit 1 text) ∨
      ∃ options ring, parseArgs oneTokenArgs = .ok options ∧ options.Valid ∧
        (∀ key, routeKeyToNode ring key = options.config.nodeId) ∧
        startup =
          if options.dryRun then .exit 0 []
          else if false then .ready options ring
          else .exit 1 (ascii "Failed to start gRPC server\n")) := by
  have ends : (startUp oneTokenArgs false).isSome = true := by decide +kernel
  have exits : (startUp oneTokenArgs false).get ends =
      .exit 1 (ascii "Failed to start gRPC server\n") := by
    rfl
  exact ⟨_, (Option.some_get ends).symm, exits, startUp_cases (Option.some_get ends).symm⟩

end DistributedCache.Server

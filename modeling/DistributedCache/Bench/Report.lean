import DistributedCache.Bench.Workload

/-! The report of the benchmark.  It is a JSON document whatever the names of the scenarios are, and
the benchmark's own reader takes it for a matrix of the same scenarios with the requests that were
planned for them. -/

namespace DistributedCache.Bench

open Lib Lib.Scan JsonReader

/-! ### The text -/

/-- A `double` as the stream prints it after `std::fixed` and `std::setprecision(3)`. -/
inductive Printed
  | finite (negative : Bool) (thousandths : Nat)
  | nan
deriving DecidableEq, Repr

def digitByte (n : Nat) : UInt8 := UInt8.ofNat (48 + n % 10)

/-- The three digits after the point. -/
def fraction3 (n : Nat) : Bytes := [digitByte (n / 100), digitByte (n / 10), digitByte n]

def Printed.render : Printed → Bytes
  | finite negative thousandths =>
    (if negative then ascii "-" else []) ++
      (toDecimal (thousandths / 1000) ++ 46 :: fraction3 thousandths)
  | nan => ascii "nan"

/-- What the report prints after a key: a string, a `size_t`, or a `double`. -/
inductive Field
  | text (content : Bytes)
  | count (n : Nat)
  | double (value : Printed)

def Field.render : Field → Bytes
  | text content => ascii "\"" ++ jsonEscapeString content ++ ascii "\""
  | count n => toDecimal n
  | double value => value.render

/-- A line of the report. -/
def renderMember (indent ending : Bytes) (member : Bytes × Field) : Bytes :=
  indent ++ ascii "\"" ++ member.1 ++ ascii "\": " ++ member.2.render ++ ending

/-- The doubles of a result are finite and not negative, and are given in thousandths. -/
structure ScenarioResult where
  name : Bytes
  requests : Nat
  opsPerSec : Nat
  p50Ms : Nat
  p99Ms : Nat
  errorRate : Nat
  coalescingHitRatio : Nat
  duplicateBackendHits : Nat
  status : Bytes

/-- The members of a scenario before the last, in the order of the report. -/
def ScenarioResult.members (scenario : ScenarioResult) : List (Bytes × Field) :=
  [(ascii "name", .text scenario.name),
    (ascii "requests", .count scenario.requests),
    (ascii "ops_per_sec", .double (.finite false scenario.opsPerSec)),
    (ascii "p50_ms", .double (.finite false scenario.p50Ms)),
    (ascii "p99_ms", .double (.finite false scenario.p99Ms)),
    (ascii "error_rate", .double (.finite false scenario.errorRate)),
    (ascii "coalescing_hit_ratio", .double (.finite false scenario.coalescingHitRatio)),
    (ascii "duplicate_backend_hits", .double (.finite false scenario.duplicateBackendHits))]

/-- A scenario of the report, without the comma and the line feed after it. -/
def ScenarioResult.render (scenario : ScenarioResult) : Bytes :=
  ascii "    \x7b\n" ++ scenario.members.flatMap (renderMember (ascii "      ") (ascii ",\n")) ++
    renderMember (ascii "      ") (ascii "\n") (ascii "status", .text scenario.status) ++
    ascii "    \x7d"

def renderScenarios : List ScenarioResult → Bytes
  | [] => []
  | [scenario] => scenario.render ++ ascii "\n"
  | scenario :: scenarios => scenario.render ++ ascii ",\n" ++ renderScenarios scenarios

/-- What the benchmark reports.  The doubles but `readRatio` are finite and not negative, and are
given in thousandths; the check of the arguments lets `nan` pass as a ratio. -/
structure Report where
  timestamp : Bytes
  opsTotal : Nat
  durationMs : Nat
  opsPerSec : Nat
  p50Ms : Nat
  p95Ms : Nat
  p99Ms : Nat
  readOps : Nat
  writeOps : Nat
  readRatio : Printed
  keySpace : Nat
  scenarios : List ScenarioResult

/-- The members of the report before the scenarios. -/
def Report.members (report : Report) : List (Bytes × Field) :=
  [(ascii "timestamp", .text report.timestamp),
    (ascii "ops_total", .count report.opsTotal),
    (ascii "duration_ms", .double (.finite false report.durationMs)),
    (ascii "ops_per_sec", .double (.finite false report.opsPerSec)),
    (ascii "p50_ms", .double (.finite false report.p50Ms)),
    (ascii "p95_ms", .double (.finite false report.p95Ms)),
    (ascii "p99_ms", .double (.finite false report.p99Ms)),
    (ascii "read_ops", .count report.readOps),
    (ascii "write_ops", .count report.writeOps),
    (ascii "read_ratio", .double report.readRatio),
    (ascii "key_space", .count report.keySpace)]

def Report.render (report : Report) : Bytes :=
  ascii "\x7b\n" ++ report.members.flatMap (renderMember (ascii "  ") (ascii ",\n")) ++
    ascii "  \"scenarios\": [\n" ++ renderScenarios report.scenarios ++ ascii "  ]\n" ++
    ascii "\x7d\n"

/-- What the run has measured, with the doubles in thousandths. -/
structure RunMeasurements where
  durationMs : Nat
  opsPerSec : Nat
  p50Ms : Nat
  p95Ms : Nat
  p99Ms : Nat
  readOps : Nat
  writeOps : Nat
  offHitRatio : Nat
  offDuplicateHits : Nat
  onHitRatio : Nat
  onDuplicateHits : Nat

/-- The result of one scenario: the two scenarios about coalescing have the values measured for
them. -/
def scenarioResult (measured : RunMeasurements) (spec : NamedScenario) (requests : Nat) :
    ScenarioResult :=
  let coalescing :=
    if spec.name = ascii "coalescing_off" then (measured.offHitRatio, measured.offDuplicateHits)
    else if spec.name = ascii "coalescing_on" then (measured.onHitRatio, measured.onDuplicateHits)
    else (0, 0)
  { name := spec.name
    requests
    opsPerSec := measured.opsPerSec
    p50Ms := measured.p50Ms
    p99Ms := measured.p99Ms
    errorRate := 0
    coalescingHitRatio := coalescing.1
    duplicateBackendHits := coalescing.2
    status := ascii "ok" }

/-- The report on a plan. -/
def makeReport (timestamp : Bytes) (readRatio : Printed) (keySpace : Nat)
    (measured : RunMeasurements) (specs : List NamedScenario) (ops : Nat) (requests : List Nat) :
    Report :=
  { timestamp
    opsTotal := ops
    durationMs := measured.durationMs
    opsPerSec := measured.opsPerSec
    p50Ms := measured.p50Ms
    p95Ms := measured.p95Ms
    p99Ms := measured.p99Ms
    readOps := measured.readOps
    writeOps := measured.writeOps
    readRatio
    keySpace
    scenarios := List.zipWith (scenarioResult measured) specs requests }

/-! ### The document -/

def Field.json : Field → Json
  | text content => .string content
  | count n => .number (toDecimal n)
  | double value => .number value.render

def jsonMember (member : Bytes × Field) : Bytes × Json := (member.1, member.2.json)

def ScenarioResult.jsonMembers (scenario : ScenarioResult) : List (Bytes × Json) :=
  scenario.members.map jsonMember ++ [(ascii "status", .string scenario.status)]

def ScenarioResult.json (scenario : ScenarioResult) : Json := .object scenario.jsonMembers

def Report.json (report : Report) : Json :=
  .object (report.members.map jsonMember ++
    [(ascii "scenarios", .array (report.scenarios.map ScenarioResult.json))])

theorem isDigit_digitByte (n : Nat) : isDigit (digitByte n) = true := by
  have small : n % 10 < 10 := Nat.mod_lt n (by decide)
  unfold digitByte
  interval_cases n % 10 <;> decide

theorem digits_toDecimal (n : Nat) : Json.Digits (toDecimal n) :=
  ⟨toDecimal_ne_nil n, fun _ member => isDigit_of_mem_toDecimal member⟩

theorem integer_toDecimal (n : Nat) : Json.Integer (toDecimal n) := by
  rcases Nat.eq_zero_or_pos n with rfl | positive
  · exact .inl rfl
  · exact .inr ⟨digits_toDecimal n, head?_toDecimal positive⟩

theorem number_toDecimal (n : Nat) : Json.Number (toDecimal n) :=
  ⟨[], toDecimal n, [], [], .inl rfl, integer_toDecimal n, .inl rfl, .inl rfl, by simp⟩

theorem number_finite (negative : Bool) (thousandths : Nat) :
    Json.Number (Printed.finite negative thousandths).render := by
  refine ⟨if negative then ascii "-" else [], toDecimal (thousandths / 1000),
    46 :: fraction3 thousandths, [], ?_, integer_toDecimal _, .inr ⟨_, ?_, rfl⟩, .inl rfl, ?_⟩
  · cases negative
    · exact .inl rfl
    · exact .inr rfl
  · refine ⟨List.cons_ne_nil _ _, ?_⟩
    simp [fraction3, isDigit_digitByte]
  · rw [List.append_nil]
    rfl

/-- The stream prints a number, unless it prints `nan`. -/
def Field.isFinite : Field → Bool
  | double .nan => false
  | _ => true

theorem Field.value {field : Field} (finite : field.isFinite = true) :
    Json.Value field.json field.render := by
  cases field with
  | text content => exact .string (chars_jsonEscapeString content)
  | count n => exact .number (number_toDecimal n)
  | double value =>
    cases value with
    | finite negative thousandths => exact .number (number_finite negative thousandths)
    | nan => cases finite

/-- A byte that stands for itself in a string. -/
def isPlain (b : UInt8) : Bool := 32 ≤ b && b ≠ 34 && b ≠ 92

/-- A member that is right as the report writes it. -/
def isWritable (member : Bytes × Field) : Bool := member.1.all isPlain && member.2.isFinite

theorem chars_of_plain {key : Bytes} (plain : key.all isPlain = true) : Json.Chars key key := by
  induction key with
  | nil => exact .nil
  | cons b key ih =>
    simp only [List.all_cons, isPlain, Bool.and_eq_true, decide_eq_true_eq] at plain
    obtain ⟨⟨⟨low, notQuote⟩, notEscape⟩, others⟩ := plain
    exact .plain low notQuote notEscape (ih others)

theorem key_of_plain {key indent : Bytes} (plain : key.all isPlain = true)
    (white : Json.Blank indent) : Json.Key key (indent ++ (34 :: (key ++ 34 :: [58]))) :=
  ⟨indent, key, [], white, chars_of_plain plain, Json.blank_nil, rfl⟩

/-! The punctuation of the report. -/

theorem ascii_quote : ascii "\"" = [34] := rfl

theorem ascii_colon : ascii "\": " = [34, 58, 32] := rfl

theorem ascii_comma : ascii ",\n" = [44, 10] := rfl

theorem ascii_newline : ascii "\n" = [10] := rfl

theorem ascii_four : ascii "    " = List.replicate 4 32 := rfl

theorem ascii_two : ascii "  " = List.replicate 2 32 := rfl

theorem blank_space : Json.Blank [32] := by simp [Json.Blank, Json.isWhitespace]

theorem blank_newline {indent : Bytes} (white : Json.Blank indent) : Json.Blank (10 :: indent) := by
  intro b member
  rcases List.mem_cons.mp member with rfl | member
  · rfl
  · exact white b member

theorem blank_spaces (n : Nat) : Json.Blank (List.replicate n 32) := by
  intro b member
  rw [List.eq_of_mem_replicate member]
  rfl

/-- Lines that end with a comma, before the last members. -/
theorem members_flatMap {indent text : Bytes} (white : Json.Blank indent)
    {members : List (Bytes × Field)} (all : members.all isWritable = true)
    {last : List (Bytes × Json)} (rest : Json.Members Json.Value last (10 :: text)) :
    Json.Members Json.Value (members.map jsonMember ++ last)
      (10 :: (members.flatMap (renderMember indent (ascii ",\n")) ++ text)) := by
  induction members with
  | nil => exact rest
  | cons member members ih =>
    obtain ⟨⟨plain, finite⟩, others⟩ := by
      simpa only [List.all_cons, isWritable, Bool.and_eq_true] using all
    have next := Json.Members.next (key_of_plain plain (blank_newline white)) blank_space
      (Field.value finite) Json.blank_nil (ih others)
    simpa [renderMember, jsonMember, ascii_quote, ascii_colon, ascii_comma] using next

/-- The last line of an object, with the whitespace before the closing brace. -/
theorem members_last {indent closing : Bytes} (white : Json.Blank indent)
    (white' : Json.Blank closing) {member : Bytes × Field} (writable : isWritable member = true) :
    Json.Members Json.Value [jsonMember member]
      (10 :: (renderMember indent (ascii "\n") member ++ closing)) := by
  obtain ⟨plain, finite⟩ := by simpa only [isWritable, Bool.and_eq_true] using writable
  have last := Json.Members.last (key_of_plain plain (blank_newline white)) blank_space
    (Field.value finite) (blank_newline white')
  simpa [renderMember, jsonMember, ascii_quote, ascii_colon, ascii_newline] using last

/-- The text of a scenario without the indentation. -/
theorem ScenarioResult.value (scenario : ScenarioResult) :
    ∃ text, scenario.render = ascii "    " ++ text ∧ Json.Value scenario.json text := by
  have last : Json.Members Json.Value [jsonMember (ascii "status", .text scenario.status)] _ :=
    members_last (blank_spaces 6) (blank_spaces 4) rfl
  have all : scenario.members.all isWritable = true := rfl
  refine ⟨_, ?_, .object (members_flatMap (blank_spaces 6) all last)⟩
  have opening : ascii "    \x7b\n" = ascii "    " ++ [123, 10] := rfl
  have closing : ascii "    \x7d" = List.replicate 4 32 ++ [125] := rfl
  have indent : ascii "      " = List.replicate 6 32 := rfl
  simp only [render, opening, closing, indent, List.append_assoc, List.cons_append, List.nil_append]

/-- The scenarios, with the whitespace before the closing bracket. -/
theorem elements_renderScenarios {scenarios : List ScenarioResult} (nonempty : scenarios ≠ []) :
    Json.Elements Json.Value (scenarios.map ScenarioResult.json)
      (10 :: (renderScenarios scenarios ++ ascii "  ")) := by
  induction scenarios with
  | nil => exact absurd rfl nonempty
  | cons scenario scenarios ih =>
    obtain ⟨text, shape, value⟩ := scenario.value
    cases scenarios with
    | nil =>
      have last := Json.Elements.last (blank_newline (blank_spaces 4)) value
        (blank_newline (blank_spaces 2))
      rw [renderScenarios, shape]
      simpa [ascii_newline, ascii_four, ascii_two] using last
    | cons other scenarios =>
      have next := Json.Elements.next (blank_newline (blank_spaces 4)) value Json.blank_nil
        (ih (List.cons_ne_nil _ _))
      rw [renderScenarios, shape]
      · simpa [ascii_comma, ascii_four] using next
      · simp

/-- The report is the text of its document. -/
theorem Report.document {report : Report} (finite : report.readRatio ≠ .nan)
    (nonempty : report.scenarios ≠ []) : Json.Document report.json report.render := by
  have all : report.members.all isWritable = true := by
    cases ratio : report.readRatio with
    | finite negative thousandths =>
      rw [members, ratio]
      rfl
    | nan => exact absurd ratio finite
  have array : Json.Value (.array (report.scenarios.map ScenarioResult.json)) _ :=
    .array (elements_renderScenarios nonempty)
  have plain : (ascii "scenarios").all isPlain = true := rfl
  have last := Json.Members.last (key_of_plain plain (blank_newline (blank_spaces 2))) blank_space
    array (blank_newline Json.blank_nil)
  have text := members_flatMap (blank_spaces 2) all last
  refine ⟨[], _, [10], Json.blank_nil, .object text, blank_newline Json.blank_nil, ?_⟩
  have opening : ascii "\x7b\n" = [123, 10] := rfl
  have named : ascii "  \"scenarios\": [\n" =
      List.replicate 2 32 ++ (34 :: (ascii "scenarios" ++ [34, 58, 32, 91, 10])) := rfl
  have close : ascii "  ]\n" = ascii "  " ++ [93, 10] := rfl
  have closing : ascii "\x7d\n" = [125, 10] := rfl
  simp only [render, opening, named, close, closing, ascii_two, List.append_eq, List.append_assoc,
    List.cons_append, List.nil_append]

/-! ### Reading the report -/

def ScenarioResult.spec (scenario : ScenarioResult) : NamedScenario :=
  ⟨⟨scenario.requests⟩, scenario.name⟩

/-- The members of a scenario have different keys. -/
theorem ScenarioResult.eq_of_mem {scenario : ScenarioResult} {key : Bytes} {v v' : Json}
    (member : (key, v) ∈ scenario.jsonMembers) (member' : (key, v') ∈ scenario.jsonMembers) :
    v = v' := by
  have keys : (scenario.jsonMembers.map Prod.fst).Nodup := by
    show [ascii "name", ascii "requests", ascii "ops_per_sec", ascii "p50_ms", ascii "p99_ms",
      ascii "error_rate", ascii "coalescing_hit_ratio", ascii "duplicate_backend_hits",
      ascii "status"].Nodup
    decide
  exact congrArg Prod.snd (List.inj_on_of_nodup_map keys member member' rfl)

theorem ScenarioResult.isScenario {scenario : ScenarioResult}
    (fits : scenario.requests < 2 ^ 64) : IsScenario scenario.jsonMembers := by
  have name : (ascii "name", Json.string scenario.name) ∈ scenario.jsonMembers := .head _
  have requests : (ascii "requests", Json.number (toDecimal scenario.requests)) ∈
      scenario.jsonMembers := .tail _ (.head _)
  refine ⟨⟨_, name⟩, fun v member => ⟨_, eq_of_mem member name⟩, fun v member => ?_⟩
  cases eq_of_mem member requests
  exact ⟨scenario.requests, fits, _, rfl, fun _ inside => isDigit_of_mem_toDecimal inside,
    (digitsValue_toDecimal _).symm⟩

theorem ScenarioResult.gives (scenario : ScenarioResult) (defaultRequests : Nat) :
    Gives defaultRequests scenario.jsonMembers scenario.spec :=
  ⟨rfl, toDecimal scenario.requests, rfl, fun _ inside => isDigit_of_mem_toDecimal inside,
    (digitsValue_toDecimal _).symm⟩

theorem Report.isMatrix {report : Report} (nonempty : report.scenarios ≠ [])
    (fits : ∀ scenario ∈ report.scenarios, scenario.requests < 2 ^ 64) :
    IsMatrix report.json (report.scenarios.map ScenarioResult.json) := by
  refine ⟨_, rfl, rfl, by simpa using nonempty, fun v member => ?_⟩
  obtain ⟨scenario, inside, rfl⟩ := List.mem_map.mp member
  exact ⟨_, rfl, ScenarioResult.isScenario (fits scenario inside)⟩

theorem allGive_spec (defaultRequests : Nat) (scenarios : List ScenarioResult) :
    AllGive defaultRequests (scenarios.map ScenarioResult.json)
      (scenarios.map ScenarioResult.spec) := by
  induction scenarios with
  | nil => exact .nil
  | cons scenario scenarios ih => exact .cons ⟨_, rfl, scenario.gives defaultRequests⟩ ih

/-- The matrix reader finds the scenarios of a report, in their order. -/
theorem Report.load {report : Report} (finite : report.readRatio ≠ .nan)
    (nonempty : report.scenarios ≠ [])
    (fits : ∀ scenario ∈ report.scenarios, scenario.requests < 2 ^ 64) (path : Bytes)
    (defaultRequests : Nat) :
    loadScenarioMatrix path defaultRequests (some report.render) =
      .ok (report.scenarios.map ScenarioResult.spec) := by
  obtain ⟨scenarios, give, reads⟩ : ∃ scenarios, AllGive defaultRequests _ scenarios ∧
      Reads (parseScenarioMatrix defaultRequests) _ scenarios [] :=
    reads_parseScenarioMatrix (Report.document finite nonempty) (Report.isMatrix nonempty fits)
  obtain rfl := give.unique (allGive_spec defaultRequests report.scenarios)
  rw [← List.append_nil report.render] at reads
  have run := reads.run
  rw [List.append_nil] at run
  have nonempty : report.render ≠ [] := List.cons_ne_nil _ _
  rw [loadScenarioMatrix]
  simp only [if_neg nonempty, run]

/-- The scenarios with the requests that were planned for them. -/
def replanned (specs : List NamedScenario) (requests : List Nat) : List NamedScenario :=
  List.zipWith (fun spec n => ⟨⟨n⟩, spec.name⟩) specs requests

section

variable {specs : List NamedScenario} {requests : List Nat} {ops : Nat}

theorem map_name_replanned (length : requests.length = specs.length) :
    (replanned specs requests).map (fun spec => spec.name) = specs.map fun spec => spec.name := by
  refine List.ext_getElem ?_ fun i _ _ => ?_
  · simp [replanned, length]
  · simp [replanned]

theorem map_requests_replanned (length : requests.length = specs.length) :
    (replanned specs requests).map (fun spec => spec.requests) = requests := by
  refine List.ext_getElem ?_ fun i _ _ => ?_
  · simp [replanned, length]
  · simp [replanned]

/-- The scenarios of a report on a plan are planned in the same way without `--ops`. -/
theorem planRequests_replanned {L : Type} (ld : LongDouble L) (plans : Plans specs ops requests) :
    planRequests ld none (replanned specs requests) = .ok (ops, requests) := by
  have counts := map_requests_replanned plans.length
  have summed : sumScenarioRequests (replanned specs requests) = some ops :=
    sumScenarioRequests_eq_some.mpr ⟨by rw [counts, plans.sum], plans.fits⟩
  rw [planRequests, summed]
  simp only [if_neg (Nat.pos_iff_ne_zero.mp plans.positive), counts]

theorem makeReport_spec (timestamp : Bytes) (readRatio : Printed) (keySpace : Nat)
    (measured : RunMeasurements) :
    (makeReport timestamp readRatio keySpace measured specs ops requests).scenarios.map
      ScenarioResult.spec = replanned specs requests := by
  rw [makeReport, List.map_zipWith]
  rfl

end

/-- The report on a plan for a loaded matrix is a JSON document, and it is a matrix itself: loaded
in place of the first one, it has the same scenarios in the same order, and without `--ops` it plans
the same operations and the same requests.  A read ratio of `nan` passes the check of the arguments
and is printed as `nan`, which is no JSON. -/
theorem report_replays {L : Type} (ld : LongDouble L) {path : Bytes} {defaultRequests : Nat}
    {file : Option Bytes} {opsOverride : Option UInt64} {specs : List NamedScenario} {ops : Nat}
    {requests : List Nat} (loaded : loadScenarioMatrix path defaultRequests file = .ok specs)
    (planned : planRequests ld opsOverride specs = .ok (ops, requests)) (timestamp : Bytes)
    {readRatio : Printed} (finite : readRatio ≠ .nan) (keySpace : Nat)
    (measured : RunMeasurements) :
    let report := makeReport timestamp readRatio keySpace measured specs ops requests
    Json.Document report.json report.render ∧
      ∀ path' defaultRequests', ∃ respecs,
        loadScenarioMatrix path' defaultRequests' (some report.render) = .ok respecs ∧
        respecs.map (fun spec => spec.name) = specs.map (fun spec => spec.name) ∧
        planRequests ld none respecs = .ok (ops, requests) := by
  intro report
  have nonempty := loadScenarioMatrix_ne_nil loaded
  have plans := planRequests_plans nonempty planned
  have specced : report.scenarios.map ScenarioResult.spec = replanned specs requests :=
    makeReport_spec timestamp readRatio keySpace measured
  have anyScenario : report.scenarios ≠ [] := by
    intro empty
    have names := map_name_replanned plans.length
    rw [← specced, empty] at names
    exact nonempty (List.map_eq_nil_iff.mp names.symm)
  have fits : ∀ scenario ∈ report.scenarios, scenario.requests < 2 ^ 64 := by
    intro scenario member
    refine plans.lt ?_
    rw [← map_requests_replanned plans.length, ← specced, List.map_map]
    exact List.mem_map_of_mem member
  refine ⟨Report.document finite anyScenario, fun path' defaultRequests' => ⟨_, ?_,
    map_name_replanned plans.length, planRequests_replanned ld plans⟩⟩
  rw [Report.load finite anyScenario fits path' defaultRequests', specced]

/-- A matrix with one scenario. -/
def soloMatrix : Bytes := ascii "\x7b\"scenarios\":[\x7b\"name\":\"a\",\"requests\":7\x7d]\x7d"

/-- Three operations instead of the seven requests of the matrix. -/
theorem soloMatrix_replays :
    let report := makeReport (ascii "2024-01-01T00:00:00Z") (.finite false 800) 2000
      ⟨12, 250000, 1, 2, 3, 2, 1, 0, 0, 875, 0⟩ [⟨⟨7⟩, ascii "a"⟩] 3 [3]
    ∃ respecs, loadScenarioMatrix matrixPath 1000000 (some report.render) = .ok respecs ∧
      respecs.map (fun spec => spec.name) = [ascii "a"] ∧
      planRequests LongDouble.exact none respecs = .ok (3, [3]) := by
  have loaded : loadScenarioMatrix matrixPath 3 (some soloMatrix) = .ok [⟨⟨7⟩, ascii "a"⟩] := by
    rfl
  have planned : planRequests LongDouble.exact (some 3) [⟨⟨7⟩, ascii "a"⟩] = .ok (3, [3]) := by
    have shares : LongDouble.exact.distributeScenarioRequests [⟨7⟩] 3 = [3] := by
      obtain ⟨n, one⟩ := List.length_eq_one_iff.mp (LongDouble.exact.length_distribute [⟨7⟩] 3)
      have sum := LongDouble.exact.sum_distribute (List.cons_ne_nil ⟨7⟩ []) 3
      rw [one] at sum ⊢
      simpa using sum
    exact congrArg (fun shares => Except.ok (3, shares)) shares
  exact (report_replays LongDouble.exact loaded planned _ (by decide) 2000 _).2 _ _

end DistributedCache.Bench

import DistributedCache.Bytes
import DistributedCache.Lib.OrderedMap
import DistributedCache.Lib.Rounding
import Mathlib.Data.List.Induction
import Mathlib.Data.List.Lex

/-! The metrics of the server and the text that a scrape reads.  The program passes only
non-negative integers as values and amounts, so a `double` is the integer that it holds.  A stream
prints it with six significant digits, and a counter is scraped exactly as long as it has no more of
them. -/

namespace DistributedCache.Metrics

open Lib

instance instLinearOrderUInt8 : LinearOrder UInt8 where
  le_refl := UInt8.le_refl
  le_trans _ _ _ := UInt8.le_trans
  le_antisymm _ _ := UInt8.le_antisymm
  le_total := UInt8.le_total
  lt_iff_le_not_ge a b := by
    rw [UInt8.not_le]
    exact ⟨fun h => ⟨UInt8.le_of_lt h, h⟩, And.right⟩
  toDecidableLE := inferInstance

/-- The values of `Metric::type`. -/
inductive MetricType
  | gauge
  | counter
deriving DecidableEq, Repr

def MetricType.text : MetricType → Bytes
  | gauge => ascii "gauge"
  | counter => ascii "counter"

structure Metric where
  name : Bytes
  help : Bytes
  type : MetricType
  value : Nat
deriving DecidableEq, Repr

structure PrometheusEndpoint where
  metrics : OrderedMap Bytes Metric

/-- `out << metric.name << ' ' << metric.value << '\n'`. -/
def Metric.sampleLine (metric : Metric) : Bytes :=
  metric.name ++ ascii " " ++ formatG metric.value ++ ascii "\n"

/-- The lines `HELP`, unless there is no help, and `TYPE`. -/
def Metric.header (metric : Metric) : Bytes :=
  (if metric.help ≠ [] then
      ascii "# HELP " ++ metric.name ++ ascii " " ++ metric.help ++ ascii "\n"
    else []) ++
    (ascii "# TYPE " ++ metric.name ++ ascii " " ++ metric.type.text ++ ascii "\n")

/-- The body of the loop of `RenderPrometheusMetrics`. -/
def Metric.render (metric : Metric) : Bytes := metric.header ++ metric.sampleLine

namespace PrometheusEndpoint

def new : PrometheusEndpoint := ⟨.empty⟩

/-- `metric.help` after `if (!help.empty()) metric.help = help;`. -/
def helpAfter (endpoint : PrometheusEndpoint) (name help : Bytes) : Bytes :=
  if help ≠ [] then help else ((endpoint.metrics.find name).map Metric.help).getD []

/-- `metrics_[name].value`. -/
def value (endpoint : PrometheusEndpoint) (name : Bytes) : Nat :=
  ((endpoint.metrics.find name).map Metric.value).getD 0

def setGauge (endpoint : PrometheusEndpoint) (name : Bytes) (value : Nat) (help : Bytes) :
    PrometheusEndpoint :=
  ⟨endpoint.metrics.insert name ⟨name, endpoint.helpAfter name help, .gauge, value⟩⟩

def incrementCounter (endpoint : PrometheusEndpoint) (name : Bytes) (amount : Nat)
    (help : Bytes) : PrometheusEndpoint :=
  ⟨endpoint.metrics.insert name ⟨name, endpoint.helpAfter name help, .counter,
    toDouble (endpoint.value name + amount)⟩⟩

def renderPrometheusMetrics (endpoint : PrometheusEndpoint) : Bytes :=
  endpoint.metrics.entries.flatMap fun e => e.2.render

/-- A call of one of the operations that change the metrics. -/
inductive Call
  | setGauge (name : Bytes) (value : Nat) (help : Bytes)
  | incrementCounter (name : Bytes) (amount : Nat) (help : Bytes)
deriving DecidableEq, Repr

def Call.name : Call → Bytes
  | setGauge name _ _ | incrementCounter name _ _ => name

def apply (endpoint : PrometheusEndpoint) : Call → PrometheusEndpoint
  | .setGauge name value help => endpoint.setGauge name value help
  | .incrementCounter name amount help => endpoint.incrementCounter name amount help

def run (endpoint : PrometheusEndpoint) (calls : List Call) : PrometheusEndpoint :=
  calls.foldl apply endpoint

/-- The line that a scrape has for a name. -/
def sampleLineFor (endpoint : PrometheusEndpoint) (name : Bytes) : Option Bytes :=
  (endpoint.metrics.find name).map Metric.sampleLine

/-- The number in a sample line: what stands between the name with its space and the end. -/
def readSample (name line : Bytes) : Option ℚ := denote ((line.drop (name.length + 1)).dropLast)

variable {endpoint : PrometheusEndpoint} {name other : Bytes}

/-- The sample lines are lines of the rendered text. -/
theorem sampleLineFor_infix {line : Bytes} (printed : endpoint.sampleLineFor name = some line) :
    line <:+: endpoint.renderPrometheusMetrics := by
  obtain ⟨metric, found, rfl⟩ := Option.map_eq_some_iff.mp printed
  obtain ⟨front, back, split⟩ := List.append_of_mem (OrderedMap.find_eq_some.mp found)
  unfold renderPrometheusMetrics
  rw [split, List.flatMap_append, List.flatMap_cons]
  refine ⟨front.flatMap (fun e => e.2.render) ++ metric.header,
    back.flatMap fun e => e.2.render, ?_⟩
  simp only [Metric.render, List.append_assoc]

theorem readSample_sampleLine {metric : Metric} (named : metric.name = name) :
    readSample name metric.sampleLine = some (roundSig 10 6 metric.value : ℚ) := by
  subst named
  have line : metric.sampleLine = metric.name ++ (ascii " " ++ (formatG metric.value ++ [10])) := by
    simp only [Metric.sampleLine, List.append_assoc]
    rfl
  have text : (metric.sampleLine.drop (metric.name.length + 1)).dropLast =
      formatG metric.value := by
    rw [line, ← List.drop_drop, List.drop_left]
    exact List.dropLast_concat
  rw [readSample, text, denote_formatG]

/-! ### Counting -/

/-- The call increments the counter by one. -/
def Call.Counts (name : Bytes) (call : Call) : Prop :=
  ∃ help, call = .incrementCounter name 1 help

/-- The number of calls that concern a name. -/
def count (name : Bytes) (calls : List Call) : Nat := calls.countP fun call => call.name = name

theorem run_append (calls : List Call) (call : Call) :
    endpoint.run (calls ++ [call]) = (endpoint.run calls).apply call := by
  simp [run]

theorem find_apply_ne {call : Call} (different : call.name ≠ name) :
    (endpoint.apply call).metrics.find name = endpoint.metrics.find name := by
  cases call with
  | setGauge other value help =>
    exact OrderedMap.find_insert.trans (if_neg (Ne.symm different))
  | incrementCounter other amount help =>
    exact OrderedMap.find_insert.trans (if_neg (Ne.symm different))

/-- A counter that is only counted up holds the number of the calls. -/
theorem find_run {calls : List Call}
    (only : ∀ call ∈ calls, call.name = name → call.Counts name)
    (small : count name calls < 2 ^ 53) :
    (count name calls = 0 ∧ (new.run calls).metrics.find name = none) ∨
      ∃ metric, (new.run calls).metrics.find name = some metric ∧ metric.name = name ∧
        metric.value = count name calls ∧ 0 < count name calls := by
  induction calls using List.reverseRecOn with
  | nil => exact .inl ⟨rfl, rfl⟩
  | append_singleton calls call ih =>
    have earlier := ih (fun c member => only c (List.mem_append_left _ member)) (by
      refine lt_of_le_of_lt ?_ small
      simp [count])
    rw [run_append]
    by_cases same : call.name = name
    · obtain ⟨help, rfl⟩ := only call (by simp) same
      have next : count name (calls ++ [.incrementCounter name 1 help]) = count name calls + 1 := by
        simp [count, Call.name]
      have held : (new.run calls).value name = count name calls := by
        rcases earlier with ⟨uncounted, absent⟩ | ⟨metric, found, -, value, -⟩
        · simp [PrometheusEndpoint.value, absent, uncounted]
        · simp [PrometheusEndpoint.value, found, value]
      refine .inr ⟨_, OrderedMap.find_insert.trans (if_pos rfl), rfl, ?_, by omega⟩
      show toDouble ((new.run calls).value name + 1) = _
      rw [held, ← next, toDouble_of_lt small]
    · have next : count name (calls ++ [call]) = count name calls := by
        simp [count, same]
      rw [find_apply_ne same, next]
      exact earlier

/-- A counter that was incremented has a line in the rendered text, which shows the number of the
calls. -/
def Exact (name : Bytes) (calls : List Call) : Prop :=
  (count name calls = 0 ∧ (new.run calls).sampleLineFor name = none) ∨
    ∃ line, (new.run calls).sampleLineFor name = some line ∧
      line <:+: (new.run calls).renderPrometheusMetrics ∧
      readSample name line = some (count name calls : ℚ)

theorem Exact.readSample_eq {calls : List Call} (exact : Exact name calls) {line : Bytes}
    (printed : (new.run calls).sampleLineFor name = some line) :
    readSample name line = some (count name calls : ℚ) := by
  rcases exact with ⟨-, missing⟩ | ⟨line', printed', -, shown⟩
  · rw [printed] at missing
    cases missing
  · rw [printed] at printed'
    cases printed'
    exact shown

/-- A number has no more than six significant digits. -/
def SixDigits (n : Nat) : Prop := lastPlace 10 6 n ∣ n

theorem exact_iff {calls : List Call} (only : ∀ call ∈ calls, call.name = name → call.Counts name)
    (small : count name calls < 2 ^ 53) : Exact name calls ↔ SixDigits (count name calls) := by
  rcases find_run only small with ⟨uncounted, absent⟩ | ⟨metric, found, named, value, positive⟩
  · have digits : SixDigits (count name calls) := by
      rw [uncounted]
      exact dvd_zero _
    exact iff_of_true (.inl ⟨uncounted, by rw [sampleLineFor, absent, Option.map_none]⟩) digits
  · have printed : (new.run calls).sampleLineFor name = some metric.sampleLine := by
      rw [sampleLineFor, found, Option.map_some]
    have shown := readSample_sampleLine named
    rw [value] at shown
    rw [SixDigits, ← roundSig_eq_iff (by decide)]
    constructor
    · intro exact
      rw [exact.readSample_eq printed, Option.some.injEq, Nat.cast_inj] at shown
      exact shown.symm
    · intro short
      rw [short] at shown
      exact .inr ⟨metric.sampleLine, printed, sampleLineFor_infix printed, shown⟩

/-- The sample lines after the two lists of calls show the numbers of their calls, and different
numbers. -/
structure Distinguishes (name : Bytes) (calls calls' : List Call) : Prop where
  first : Exact name calls
  second : Exact name calls'
  different : ∀ line line', (new.run calls).sampleLineFor name = some line →
    (new.run calls').sampleLineFor name = some line' → readSample name line ≠ readSample name line'

/-- Two scrapes of a counter show the numbers of its increments exactly if these have no more than
six significant digits. -/
theorem distinguishes_iff {calls calls' : List Call}
    (only : ∀ call ∈ calls, call.name = name → call.Counts name)
    (only' : ∀ call ∈ calls', call.name = name → call.Counts name)
    (fewer : count name calls < count name calls') (small : count name calls' < 2 ^ 53) :
    Distinguishes name calls calls' ↔
      SixDigits (count name calls) ∧ SixDigits (count name calls') := by
  have first := exact_iff only (fewer.trans small)
  have second := exact_iff only' small
  constructor
  · intro distinguishes
    exact ⟨first.mp distinguishes.first, second.mp distinguishes.second⟩
  · rintro ⟨short, short'⟩
    have exact := first.mpr short
    have exact' := second.mpr short'
    refine ⟨exact, exact', fun line line' printed printed' same => ?_⟩
    rw [exact.readSample_eq printed, exact'.readSample_eq printed', Option.some.injEq,
      Nat.cast_inj] at same
    omega

/-- What the server does for so many requests. -/
def requests (n : Nat) : List Call :=
  .replicate n (.incrementCounter (ascii "cache_resp_requests_total") 1
    (ascii "Total RESP requests"))

theorem requests_count (n : Nat) :
    (∀ call ∈ requests n, call.name = ascii "cache_resp_requests_total" →
      call.Counts (ascii "cache_resp_requests_total")) ∧
    count (ascii "cache_resp_requests_total") (requests n) = n := by
  refine ⟨fun call member _ => ?_, ?_⟩
  · rw [(List.mem_replicate.mp member).2]
    exact ⟨_, rfl⟩
  · rw [count, requests, List.countP_replicate]
    exact if_pos (decide_eq_true rfl)

theorem requests_distinguished :
    Distinguishes (ascii "cache_resp_requests_total") (requests 5) (requests 999999) := by
  obtain ⟨only, counted⟩ := requests_count 5
  obtain ⟨only', counted'⟩ := requests_count 999999
  refine (distinguishes_iff only only' (by omega) (by omega)).mpr ?_
  rw [counted, counted']
  unfold SixDigits
  decide

/-- A million requests and one more give the same line. -/
theorem million_requests_alike :
    (new.run (requests 1000000)).sampleLineFor (ascii "cache_resp_requests_total") =
        some (ascii "cache_resp_requests_total 1e+06\n") ∧
      (new.run (requests 1000001)).sampleLineFor (ascii "cache_resp_requests_total") =
        some (ascii "cache_resp_requests_total 1e+06\n") ∧
      ¬ Distinguishes (ascii "cache_resp_requests_total") (requests 1000000)
        (requests 1000001) := by
  have line : ∀ n, 0 < n → n < 2 ^ 53 →
      (new.run (requests n)).sampleLineFor (ascii "cache_resp_requests_total") =
        some (ascii "cache_resp_requests_total " ++ formatG n ++ ascii "\n") := by
    intro n some_requests small
    obtain ⟨only, counted⟩ := requests_count n
    rcases find_run only (counted.symm ▸ small) with
      ⟨uncounted, -⟩ | ⟨metric, found, named, value, -⟩
    · omega
    · rw [sampleLineFor, found, Option.map_some, Metric.sampleLine, named, value, counted]
      rfl
  have first := line 1000000 (by decide) (by decide)
  have second := line 1000001 (by decide) (by decide)
  have same : formatG 1000001 = formatG 1000000 := by decide
  rw [same] at second
  refine ⟨first.trans (by decide), second.trans (by decide), fun distinguishes => ?_⟩
  exact distinguishes.different _ _ first second rfl

end PrometheusEndpoint

end DistributedCache.Metrics

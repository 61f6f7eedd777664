import DistributedCache.Metrics.PrometheusEndpoint

/-! What a scraper reads.  The reader below takes the text of a scrape apart line by line, without
looking at the endpoint, and finds in it one family for each name, in the order of the names.  What
it finds for a name depends on the calls for this name only. -/

namespace DistributedCache.Metrics

open Lib

/-- What stands before the first `mark`, and what stands behind it. -/
def cutAt (mark : UInt8) (text : Bytes) : Option (Bytes × Bytes) :=
  match text.dropWhile (· ≠ mark) with
  | [] => none
  | _ :: rest => some (text.takeWhile (· ≠ mark), rest)

theorem cutAt_append {mark : UInt8} {front : Bytes} (rest : Bytes) (clean : mark ∉ front) :
    cutAt mark (front ++ mark :: rest) = some (front, rest) := by
  have pass : ∀ b ∈ front, decide (b ≠ mark) = true := by
    intro b member
    simpa using fun same : b = mark => clean (same ▸ member)
  rw [cutAt, List.dropWhile_append_of_pos pass, List.takeWhile_append_of_pos pass]
  simp

/-- A metric as a scraper sees it. -/
structure Family where
  name : Bytes
  help : Bytes
  type : MetricType
  value : ℚ
deriving DecidableEq

/-- A line of the exposition format. -/
inductive Line
  | help (name help : Bytes)
  | type (name : Bytes) (type : MetricType)
  | sample (name : Bytes) (value : ℚ)

def MetricType.ofText (text : Bytes) : Option MetricType :=
  if text = ascii "gauge" then some .gauge
  else if text = ascii "counter" then some .counter
  else none

theorem MetricType.ofText_text (type : MetricType) : ofText type.text = some type := by
  cases type <;> decide

/-- Reads a line without its end. -/
def Line.read (line : Bytes) : Option Line :=
  if (ascii "# HELP ").isPrefixOf line then
    (cutAt 32 (line.drop 7)).map fun part => .help part.1 part.2
  else if (ascii "# TYPE ").isPrefixOf line then
    (cutAt 32 (line.drop 7)).bind fun part => (MetricType.ofText part.2).map (.type part.1)
  else (cutAt 32 line).bind fun part => (denote part.2).map (.sample part.1)

/-- The first line of a text, and the text behind it. -/
def nextLine (text : Bytes) : Option (Line × Bytes) :=
  (cutAt 10 text).bind fun part => (Line.read part.1).map (·, part.2)

namespace Family

/-- The line with the sample. -/
def readSample (name help : Bytes) (type : MetricType) (text : Bytes) : Option (Family × Bytes) :=
  match nextLine text with
  | some (.sample name' value, rest) =>
    if name' = name then some (⟨name, help, type, value⟩, rest) else none
  | _ => none

/-- The lines of one metric. -/
def read (text : Bytes) : Option (Family × Bytes) :=
  match nextLine text with
  | some (.help name help, rest) =>
    match nextLine rest with
    | some (.type name' type, rest) => if name' = name then readSample name help type rest else none
    | _ => none
  | some (.type name type, rest) => readSample name [] type rest
  | _ => none

/-- At most `fuel` families, up to the end of the text. -/
def readUpTo : Nat → Bytes → Option (List Family)
  | _, [] => some []
  | 0, _ :: _ => none
  | fuel + 1, text =>
    (read text).bind fun (family, rest) => (readUpTo fuel rest).map (family :: ·)

/-- All the families of a text. -/
def readAll (text : Bytes) : Option (List Family) := readUpTo text.length text

end Family

/-! ### Reading what was rendered -/

namespace Metric

/-- The name has no space and no line end, and the help has no line end. -/
structure Printable (metric : Metric) : Prop where
  name : 32 ∉ metric.name ∧ 10 ∉ metric.name
  help : 10 ∉ metric.help

/-- What a scraper sees of a metric. -/
def family (metric : Metric) : Family :=
  ⟨metric.name, metric.help, metric.type, roundSig 10 6 metric.value⟩

variable {metric : Metric}

theorem nextLine_append {line : Bytes} {parsed : Line} (rest : Bytes) (clean : 10 ∉ line)
    (read : Line.read line = some parsed) :
    nextLine (line ++ 10 :: rest) = some (parsed, rest) := by
  rw [nextLine, cutAt_append rest clean, Option.bind_some, read, Option.map_some]

/-- A line that starts with a word of seven bytes, and goes on with a name and a text. -/
theorem nextLine_comment {word name text : Bytes} {parsed : Line} (rest : Bytes)
    (clean : 10 ∉ word ∧ 10 ∉ name ∧ 10 ∉ text)
    (read : Line.read (word ++ (name ++ 32 :: text)) = some parsed) :
    nextLine (word ++ name ++ ascii " " ++ text ++ ascii "\n" ++ rest) = some (parsed, rest) := by
  have line : word ++ name ++ ascii " " ++ text ++ ascii "\n" ++ rest =
      (word ++ (name ++ 32 :: text)) ++ 10 :: rest := by
    have space : ascii " " = [32] := rfl
    have newline : ascii "\n" = [10] := rfl
    simp [space, newline]
  rw [line]
  exact nextLine_append rest (by simp [clean]) read

theorem nextLine_help (printable : metric.Printable) (rest : Bytes) :
    nextLine (ascii "# HELP " ++ metric.name ++ ascii " " ++ metric.help ++ ascii "\n" ++ rest) =
      some (.help metric.name metric.help, rest) := by
  refine nextLine_comment rest ⟨by decide, printable.name.2, printable.help⟩ ?_
  have starts : (ascii "# HELP ").isPrefixOf
      (ascii "# HELP " ++ (metric.name ++ 32 :: metric.help)) = true := by
    simp
  rw [Line.read, if_pos starts, show (7 : Nat) = (ascii "# HELP ").length from rfl,
    List.drop_left, cutAt_append _ printable.name.1, Option.map_some]

theorem nextLine_type (printable : metric.Printable) (rest : Bytes) :
    nextLine (ascii "# TYPE " ++ metric.name ++ ascii " " ++ metric.type.text ++ ascii "\n" ++
      rest) = some (.type metric.name metric.type, rest) := by
  have clean : 10 ∉ metric.type.text := by
    cases metric.type <;> decide
  refine nextLine_comment rest ⟨by decide, printable.name.2, clean⟩ ?_
  have other : ¬(ascii "# HELP ").isPrefixOf
      (ascii "# TYPE " ++ (metric.name ++ 32 :: metric.type.text)) = true := by
    rw [Bool.not_eq_true]
    rfl
  have starts : (ascii "# TYPE ").isPrefixOf
      (ascii "# TYPE " ++ (metric.name ++ 32 :: metric.type.text)) = true := by
    simp
  rw [Line.read, if_neg other, if_pos starts, show (7 : Nat) = (ascii "# TYPE ").length from rfl,
    List.drop_left, cutAt_append _ printable.name.1, Option.bind_some, MetricType.ofText_text,
    Option.map_some]

/-- A comment has a space after the `#` and a letter after the space, where a sample has its
number. -/
theorem not_comment {comment name word : Bytes} {letter : UInt8} {value : Nat}
    (shape : comment = 35 :: 32 :: letter :: word) (clean : 32 ∉ name)
    (other : letter ∉ formatG value) :
    ¬comment.isPrefixOf (name ++ 32 :: formatG value) = true := by
  subst shape
  intro starts
  obtain ⟨rest, same⟩ := List.isPrefixOf_iff_prefix.mp starts
  have cut : cutAt 32 (name ++ 32 :: formatG value) = some ([35], letter :: word ++ rest) := by
    rw [← same]
    exact cutAt_append _ (by decide : (32 : UInt8) ∉ [35])
  rw [cutAt_append _ clean] at cut
  obtain ⟨-, number⟩ := Prod.mk.inj (Option.some.inj cut)
  exact other (number ▸ by simp)

theorem nextLine_sample (printable : metric.Printable) (rest : Bytes) :
    nextLine (metric.sampleLine ++ rest) =
      some (.sample metric.name (roundSig 10 6 metric.value), rest) := by
  have bytes : ∀ b, ¬(isDigit b = true ∨ b = 46 ∨ b = 101 ∨ b = 43) → b ∉ formatG metric.value :=
    fun b other member => other (formatG_bytes member)
  have line : metric.sampleLine ++ rest =
      [] ++ metric.name ++ ascii " " ++ formatG metric.value ++ ascii "\n" ++ rest := rfl
  rw [line]
  refine nextLine_comment rest ⟨by decide, printable.name.2, bytes 10 (by decide)⟩ ?_
  have noHelp : ¬(ascii "# HELP ").isPrefixOf (metric.name ++ 32 :: formatG metric.value) = true :=
    not_comment rfl printable.name.1 (bytes 72 (by decide))
  have noType : ¬(ascii "# TYPE ").isPrefixOf (metric.name ++ 32 :: formatG metric.value) = true :=
    not_comment rfl printable.name.1 (bytes 84 (by decide))
  rw [List.nil_append, Line.read, if_neg noHelp, if_neg noType, cutAt_append _ printable.name.1,
    Option.bind_some, denote_formatG, Option.map_some]

/-- The lines of a metric are read as the metric, whatever follows them. -/
theorem read_render (printable : metric.Printable) (rest : Bytes) :
    Family.read (metric.render ++ rest) = some (metric.family, rest) := by
  have sample : ∀ help, Family.readSample metric.name help metric.type
      (metric.sampleLine ++ rest) =
        some (⟨metric.name, help, metric.type, roundSig 10 6 metric.value⟩, rest) := by
    intro help
    rw [Family.readSample, nextLine_sample printable]
    exact if_pos rfl
  have type := nextLine_type printable (metric.sampleLine ++ rest)
  by_cases helped : metric.help = []
  · have text : metric.render ++ rest = ascii "# TYPE " ++ metric.name ++ ascii " " ++
        metric.type.text ++ ascii "\n" ++ (metric.sampleLine ++ rest) := by
      simp [render, header, helped]
    rw [text, Family.read, type]
    dsimp only
    rw [sample, family, helped]
  · have text : metric.render ++ rest = ascii "# HELP " ++ metric.name ++ ascii " " ++
        metric.help ++ ascii "\n" ++ (ascii "# TYPE " ++ metric.name ++ ascii " " ++
          metric.type.text ++ ascii "\n" ++ (metric.sampleLine ++ rest)) := by
      simp [render, header, helped]
    rw [text, Family.read, nextLine_help printable]
    dsimp only
    rw [type]
    dsimp only
    rw [if_pos rfl, sample, family]

end Metric

theorem Metric.length_le_render (metrics : List Metric) :
    metrics.length ≤ (metrics.flatMap Metric.render).length := by
  induction metrics with
  | nil => exact Nat.le_refl 0
  | cons metric metrics ih =>
    have line : 1 ≤ metric.render.length := by
      simp [render, sampleLine, ascii]
      omega
    rw [List.flatMap_cons, List.length_append, List.length_cons]
    omega

theorem Family.readUpTo_render {metrics : List Metric}
    (printable : ∀ metric ∈ metrics, metric.Printable) {fuel : Nat}
    (enough : metrics.length ≤ fuel) :
    readUpTo fuel (metrics.flatMap Metric.render) = some (metrics.map Metric.family) := by
  induction metrics generalizing fuel with
  | nil => cases fuel <;> rfl
  | cons metric metrics ih =>
    obtain ⟨fuel, rfl⟩ : ∃ n, fuel = n + 1 := ⟨fuel - 1, by
      rw [List.length_cons] at enough
      omega⟩
    obtain ⟨b, text, split⟩ : ∃ b text, (metric :: metrics).flatMap Metric.render = b :: text := by
      refine List.exists_cons_of_ne_nil ?_
      simp [Metric.render, Metric.sampleLine, ascii]
    have first := Metric.read_render (printable metric List.mem_cons_self)
      (metrics.flatMap Metric.render)
    have later := ih (fun m member => printable m (List.mem_cons_of_mem _ member))
      (Nat.le_of_succ_le_succ enough)
    rw [split, readUpTo, ← split, List.flatMap_cons, first, Option.bind_some]
    dsimp only
    rw [later, Option.map_some, List.map_cons]
    intro empty
    cases empty

/-! ### What the calls for a name leave -/

namespace PrometheusEndpoint

def Call.help : Call → Bytes
  | setGauge _ _ help | incrementCounter _ _ help => help

def Call.type : Call → MetricType
  | setGauge .. => .gauge
  | incrementCounter .. => .counter

/-- The value after a call. -/
def Call.adjust (value : Nat) : Call → Nat
  | setGauge _ value _ => value
  | incrementCounter _ amount _ => toDouble (value + amount)

/-- The metric that calls for one name leave: the last help that is not empty, and the type of the
last call. -/
def summary (calls : List Call) : Option Metric :=
  calls.getLast?.map fun last =>
    ⟨last.name, ((calls.map Call.help).filter (· ≠ [])).getLast?.getD [], last.type,
      calls.foldl Call.adjust 0⟩

/-- The calls for a name. -/
def callsFor (name : Bytes) (calls : List Call) : List Call :=
  calls.filter fun call => call.name = name

variable {name : Bytes}

/-- One more call for the name. -/
theorem summary_snoc (calls : List Call) (call : Call) :
    summary (calls ++ [call]) = some ⟨call.name,
      if call.help ≠ [] then call.help else ((summary calls).map Metric.help).getD [], call.type,
      call.adjust (((summary calls).map Metric.value).getD 0)⟩ := by
  have value : ((summary calls).map Metric.value).getD 0 = calls.foldl Call.adjust 0 := by
    cases calls using List.reverseRecOn <;> simp [summary]
  have help : ((summary calls).map Metric.help).getD [] =
      ((calls.map Call.help).filter (· ≠ [])).getLast?.getD [] := by
    cases calls using List.reverseRecOn <;> simp [summary]
  rw [value, help, summary, List.getLast?_concat, Option.map_some, List.foldl_concat,
    List.map_append, List.filter_append]
  by_cases empty : call.help = [] <;> simp [empty]

/-- What the endpoint has for a name comes from the calls for this name only. -/
theorem find_eq_summary (calls : List Call) :
    (new.run calls).metrics.find name = summary (callsFor name calls) := by
  induction calls using List.reverseRecOn with
  | nil => rfl
  | append_singleton calls call ih =>
    rw [run_append]
    by_cases same : call.name = name
    · have split : callsFor name (calls ++ [call]) = callsFor name calls ++ [call] := by
        simp [callsFor, same]
      rw [split, summary_snoc, ← ih]
      cases call with
      | setGauge other value help =>
        cases same
        exact OrderedMap.find_insert.trans (if_pos rfl)
      | incrementCounter other amount help =>
        cases same
        exact OrderedMap.find_insert.trans (if_pos rfl)
    · have split : callsFor name (calls ++ [call]) = callsFor name calls := by
        simp [callsFor, same]
      rw [split, find_apply_ne same, ih]

/-- The name of the call has no space and no line end, and its help has no line end. -/
structure Call.Printable (call : Call) : Prop where
  name : 32 ∉ call.name ∧ 10 ∉ call.name
  help : 10 ∉ call.help

theorem summary_printable {calls : List Call} (printable : ∀ call ∈ calls, call.Printable)
    {metric : Metric} (left : summary calls = some metric) : metric.Printable := by
  obtain ⟨last, isLast, rfl⟩ := Option.map_eq_some_iff.mp left
  refine ⟨(printable last (List.mem_of_getLast? isLast)).name, ?_⟩
  cases helped : ((calls.map Call.help).filter (· ≠ [])).getLast? with
  | none => simp
  | some help =>
    have kept := (List.mem_filter.mp (List.mem_of_getLast? helped)).1
    obtain ⟨call, member, rfl⟩ := List.mem_map.mp kept
    simpa using (printable call member).help

theorem summary_name {calls : List Call} (about : ∀ call ∈ calls, call.name = name)
    {metric : Metric} (left : summary calls = some metric) : metric.name = name := by
  obtain ⟨last, isLast, rfl⟩ := Option.map_eq_some_iff.mp left
  exact about last (List.mem_of_getLast? isLast)

theorem mem_entries {calls : List Call} {e : Bytes × Metric} :
    e ∈ (new.run calls).metrics.entries ↔ summary (callsFor e.1 calls) = some e.2 := by
  rw [← find_eq_summary]
  exact OrderedMap.find_eq_some.symm

theorem entry_name {calls : List Call} {e : Bytes × Metric}
    (member : e ∈ (new.run calls).metrics.entries) : e.2.name = e.1 :=
  summary_name (fun call about => by simpa using (List.mem_filter.mp about).2)
    (mem_entries.mp member)

theorem readAll_entries {calls : List Call} (printable : ∀ call ∈ calls, call.Printable) :
    Family.readAll (new.run calls).renderPrometheusMetrics =
      some ((new.run calls).metrics.entries.map fun e => e.2.family) := by
  have text : (new.run calls).renderPrometheusMetrics =
      ((new.run calls).metrics.entries.map Prod.snd).flatMap Metric.render := by
    rw [renderPrometheusMetrics, List.flatMap_map]
  have clean : ∀ metric ∈ (new.run calls).metrics.entries.map Prod.snd, metric.Printable := by
    intro metric member
    obtain ⟨e, entry, rfl⟩ := List.mem_map.mp member
    exact summary_printable (fun call about => printable call (List.mem_filter.mp about).1)
      (mem_entries.mp entry)
  rw [Family.readAll, text, Family.readUpTo_render clean (Metric.length_le_render _), List.map_map]
  rfl

theorem families_sorted (calls : List Call) :
    ((new.run calls).metrics.entries.map fun e => e.2.family).Pairwise
      fun family later => family.name < later.name := by
  rw [List.pairwise_map]
  refine (new.run calls).metrics.sorted.imp_of_mem fun {e e'} member member' less => ?_
  show e.2.name < e'.2.name
  rwa [entry_name member, entry_name member']

theorem mem_families {calls : List Call} {family : Family} :
    family ∈ (new.run calls).metrics.entries.map (fun e => e.2.family) ↔
      (summary (callsFor family.name calls)).map Metric.family = some family := by
  rw [List.mem_map]
  constructor
  · rintro ⟨e, member, rfl⟩
    have same : e.2.family.name = e.1 := entry_name member
    rw [same, mem_entries.mp member, Option.map_some]
  · intro shown
    obtain ⟨metric, found, rfl⟩ := Option.map_eq_some_iff.mp shown
    exact ⟨(metric.name, metric), mem_entries.mpr found, rfl⟩

/-- A scraper reads from the rendered text one family for each name that was used, in the order of
the names, and each as the calls for its name have left it.  As everywhere in these modules, the
values and amounts are non-negative integers. -/
theorem readAll_renderPrometheusMetrics {calls : List Call}
    (printable : ∀ call ∈ calls, call.Printable) :
    ∃ families, Family.readAll (new.run calls).renderPrometheusMetrics = some families ∧
      families.Pairwise (fun family later => family.name < later.name) ∧
      ∀ family, family ∈ families ↔
        (summary (callsFor family.name calls)).map Metric.family = some family :=
  ⟨_, readAll_entries printable, families_sorted calls, fun _ => mem_families⟩

/-- A gauge that becomes a counter, and another metric without a help. -/
def mixedCalls : List Call :=
  [.setGauge (ascii "keys") 3 (ascii "Keys in the store"), .incrementCounter (ascii "hits") 1 [],
    .incrementCounter (ascii "keys") 4 []]

theorem mixedCalls_read :
    ∃ families, Family.readAll (new.run mixedCalls).renderPrometheusMetrics = some families ∧
      families.Pairwise (fun family later => family.name < later.name) ∧
      ∀ family, family ∈ families ↔
        (summary (callsFor family.name mixedCalls)).map Metric.family = some family := by
  refine readAll_renderPrometheusMetrics fun call member => ?_
  simp only [mixedCalls, List.mem_cons, List.not_mem_nil, or_false] at member
  rcases member with rfl | rfl | rfl <;> exact ⟨by decide, by decide⟩

/-- A counter that is only counted up by one. -/
theorem summary_replicate (name help : Bytes) (n : Nat) :
    summary (.replicate (n + 1) (.incrementCounter name 1 help)) =
      some ⟨name, help, .counter, min (n + 1) (2 ^ 53)⟩ := by
  induction n with
  | zero =>
    have first : (if help ≠ [] then help else []) = help := by
      by_cases empty : help = [] <;> simp [empty]
    have one : toDouble (0 + 1) = min (0 + 1) (2 ^ 53) := toDouble_count 0
    refine (summary_snoc [] _).trans ?_
    show some (⟨name, if help ≠ [] then help else [], .counter, toDouble (0 + 1)⟩ : Metric) = _
    rw [first, one]
  | succ n ih =>
    rw [List.replicate_succ', summary_snoc, ih]
    show some (⟨name, if help ≠ [] then help else help, .counter,
      toDouble (min (n + 1) (2 ^ 53) + 1)⟩ : Metric) = _
    rw [ite_self, toDouble_count]

end PrometheusEndpoint

end DistributedCache.Metrics

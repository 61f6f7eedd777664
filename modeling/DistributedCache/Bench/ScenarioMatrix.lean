import DistributedCache.Bench.JsonBounds

/-! Which texts the benchmark accepts as a scenario matrix.  Every JSON document with one list of
scenarios is read as its scenarios, and on any other text the reader stops within the text. -/

namespace DistributedCache.Bench

open Lib Lib.Scan

namespace JsonReader

variable {σ : Type} {blank text rest : Bytes} {close : UInt8} {state state' : σ}

/-! ### Lists of items -/

/-- What follows a value does not go on with its number. -/
def Ends (rest : Bytes) : Prop := rest.head?.any Json.isNumberByte = false

theorem ends_of_blank (white : Json.Blank blank) (stops : Json.isNumberByte close = false)
    (rest : Bytes) : Ends (blank ++ close :: rest) := by
  cases blank with
  | nil => exact stops
  | cons b blank =>
    have white := white b (by simp)
    simp only [Json.isWhitespace, Bool.or_eq_true, decide_eq_true_eq] at white
    rcases white with ((rfl | rfl) | rfl) | rfl <;> rfl

/-- The closing bytes of arrays and objects. -/
def Closes (close : UInt8) : Prop := close = 93 ∨ close = 125

theorem Closes.visible (closes : Closes close) : isSpace close = false := by
  rcases closes with rfl | rfl <;> decide

theorem Closes.stops (closes : Closes close) : Json.isNumberByte close = false := by
  rcases closes with rfl | rfl <;> decide

theorem Closes.ne (closes : Closes close) : close ≠ 44 := by
  rcases closes with rfl | rfl <;> decide

theorem reads_itemsRound_last {item : σ → Scan σ} (closes : Closes close)
    (white : Json.Blank blank) (read : Reads (item state) text state' (blank ++ close :: rest)) :
    Reads (itemsRound close item state) text (.inr state') rest := by
  refine read.bind ((reads_skipWhitespace white (by simp [closes.visible])).bind ?_)
  exact (reads_consume Json.blank_nil closes.visible rest).bind (.pure _ rest)

theorem reads_itemsRound_next {item : σ → Scan σ} (closes : Closes close)
    (white : Json.Blank blank) (read : Reads (item state) text state' (blank ++ 44 :: rest)) :
    Reads (itemsRound close item state) text (.inl state') rest := by
  have comma : isSpace 44 = false := by decide
  have other : (44 :: rest).head? ≠ some close := by simpa using closes.ne.symm
  refine read.bind ((reads_skipWhitespace white rfl).bind ?_)
  refine (reads_consume_not Json.blank_nil rfl other).bind ?_
  refine (reads_consume Json.blank_nil comma rest).bind ?_
  exact (Reads.require rfl rest).bind (.pure _ rest)

/-- A list of steps from state to state. -/
inductive Steps {α : Type} (Step : α → σ → σ → Prop) : List α → σ → σ → Prop
  | nil {s : σ} : Steps Step [] s s
  | cons {a : α} {list : List α} {s t u : σ} : Step a s t → Steps Step list t u →
      Steps Step (a :: list) s u

/-- The values whose texts are given are read as steps, with the whitespace before them. -/
def ReadsItem (item : σ → Scan σ) (V : Json → Bytes → Prop) (Step : Json → σ → σ → Prop) : Prop :=
  ∀ v part s t, V v part → Step v s t → ∀ blank rest, Json.Blank blank → Ends rest →
    Reads (item s) (blank ++ (part ++ rest)) t rest

/-- The elements of an array, if each is read as a step. -/
theorem rounds_elements {V : Json → Bytes → Prop} {Step : Json → σ → σ → Prop}
    {item : σ → Scan σ} {elements : List Json} (reads : ReadsItem item V Step)
    (all : Json.Elements V elements text) (steps : Steps Step elements state state')
    (rest : Bytes) : Rounds (itemsRound 93 item) state (text ++ 93 :: rest) state' rest := by
  have closes : Closes 93 := .inl rfl
  induction all generalizing state with
  | @last v before part after white value white' =>
    obtain _ | ⟨step, _ | _⟩ := steps
    have read := reads v part _ _ value step before (after ++ 93 :: rest) white
      (ends_of_blank white' closes.stops rest)
    simp only [List.append_assoc]
    exact .last (reads_itemsRound_last closes white' read)
  | @next v elements before part after others white value white' _ ih =>
    obtain _ | ⟨step, steps⟩ := steps
    have read := reads v part _ _ value step before (after ++ 44 :: (others ++ 93 :: rest)) white
      (ends_of_blank white' rfl _)
    simp only [List.append_assoc, List.cons_append]
    refine .next (reads_itemsRound_next closes white' read) ?_ (ih steps)
    simp only [List.length_append, List.length_cons]
    omega

theorem reads_member {field : Bytes → σ → Scan σ} {key name : Bytes} (named : Json.Key key name)
    (read : Reads (field key state) text state' rest) :
    Reads (member field state) (name ++ text) state' rest := by
  obtain ⟨before, chars, after, white, content, white', rfl⟩ := named
  have colon : isSpace 58 = false := by decide
  have string := reads_parseString white content (after ++ 58 :: text)
  simp only [List.append_assoc, List.cons_append, List.nil_append]
  refine string.bind ((reads_consume white' colon text).bind ?_)
  exact (Reads.require rfl text).bind read

/-- The members of an object, if each is read as a step. -/
theorem rounds_members {V : Json → Bytes → Prop} {Step : Bytes × Json → σ → σ → Prop}
    {field : Bytes → σ → Scan σ} {members : List (Bytes × Json)}
    (reads : ∀ key, ReadsItem (field key) V fun v => Step (key, v))
    (all : Json.Members V members text) (steps : Steps Step members state state')
    (rest : Bytes) :
    Rounds (itemsRound 125 (member field)) state (text ++ 125 :: rest) state' rest := by
  have closes : Closes 125 := .inr rfl
  induction all generalizing state with
  | @last key v name before part after named white value white' =>
    obtain _ | ⟨step, _ | _⟩ := steps
    have read := reads key v part _ _ value step before (after ++ 125 :: rest) white
      (ends_of_blank white' closes.stops rest)
    simp only [List.append_assoc]
    exact .last (reads_itemsRound_last closes white' (reads_member named read))
  | @next key v members name before part after others named white value white' _ ih =>
    obtain _ | ⟨step, steps⟩ := steps
    have read := reads key v part _ _ value step before (after ++ 44 :: (others ++ 125 :: rest))
      white (ends_of_blank white' rfl _)
    simp only [List.append_assoc, List.cons_append]
    refine .next (reads_itemsRound_next closes white' (reads_member named read)) ?_ (ih steps)
    simp only [List.length_append, List.length_cons]
    omega

/-! ### Openings -/

theorem isSpace_of_lt {b : UInt8} (low : 32 < b) : isSpace b = false := by
  have notSpace : b ≠ 32 := fun same => by simp [same] at low
  have notControl : ¬b ≤ 13 := fun control => by
    have := UInt8.lt_of_lt_of_le low control
    exact absurd this (by decide)
  simp [isSpace, notSpace, notControl]

/-- The opening bytes of arrays and objects. -/
def Opens (opening : UInt8) : Prop := opening = 91 ∨ opening = 123

theorem Opens.visible {opening : UInt8} (opens : Opens opening) : isSpace opening = false := by
  rcases opens with rfl | rfl <;> decide

theorem reads_openList_empty {opening : UInt8} {before : Bytes} (opens : Opens opening)
    (closes : Closes close) (white : Json.Blank before) (white' : Json.Blank blank) (rest : Bytes) :
    Reads (openList opening close) (before ++ opening :: (blank ++ close :: rest)) true rest := by
  refine (reads_consume white opens.visible _).bind ((Reads.require rfl _).bind ?_)
  refine (reads_skipWhitespace white' (by simp [closes.visible])).bind ?_
  exact reads_consume Json.blank_nil closes.visible rest

theorem reads_openList {opening : UInt8} {before : Bytes} (opens : Opens opening)
    (closes : Closes close) (white : Json.Blank before) (white' : Json.Blank blank)
    (starts : Json.Starts rest) :
    Reads (openList opening close) (before ++ opening :: (blank ++ rest)) false rest := by
  obtain ⟨b, tail, rfl, low, notArray, notObject⟩ := starts
  have visible : (b :: tail).head?.any isSpace = false := isSpace_of_lt low
  have other : (b :: tail).head? ≠ some close := by
    rcases closes with rfl | rfl
    · simpa using notArray
    · simpa using notObject
  refine (reads_consume white opens.visible _).bind ((Reads.require rfl _).bind ?_)
  refine (reads_skipWhitespace white' visible).bind ?_
  exact reads_consume_not Json.blank_nil visible other

/-- An array with elements, if each is read as a step. -/
theorem reads_array {V : Json → Bytes → Prop} {Step : Json → σ → σ → Prop} {item : σ → Scan σ}
    {elements : List Json} (reads : ReadsItem item V Step)
    (starts : ∀ v part, V v part → Json.Starts part) (all : Json.Elements V elements text)
    (steps : Steps Step elements state state') (white : Json.Blank blank) (rest : Bytes) :
    ∃ mid, Reads (openList 91 93) (blank ++ 91 :: (text ++ 93 :: rest)) false mid ∧
      Reads (items 93 item state) mid state' rest := by
  obtain ⟨before, text, rfl, white', all, first⟩ := all.trim starts
  refine ⟨text ++ 93 :: rest, ?_, (rounds_elements reads all steps rest).loop⟩
  rw [List.append_assoc]
  exact reads_openList (.inl rfl) (.inl rfl) white white' (first (93 :: rest))

/-- An object with members, if each is read as a step. -/
theorem reads_object {V : Json → Bytes → Prop} {Step : Bytes × Json → σ → σ → Prop}
    {field : Bytes → σ → Scan σ} {members : List (Bytes × Json)}
    (reads : ∀ key, ReadsItem (field key) V fun v => Step (key, v))
    (all : Json.Members V members text) (steps : Steps Step members state state')
    (white : Json.Blank blank) (rest : Bytes) :
    ∃ mid, Reads (openList 123 125) (blank ++ 123 :: (text ++ 125 :: rest)) false mid ∧
      Reads (items 125 (member field) state) mid state' rest := by
  obtain ⟨before, text, rfl, white', all, first⟩ := all.trim
  refine ⟨text ++ 125 :: rest, ?_, (rounds_members reads all steps rest).loop⟩
  rw [List.append_assoc]
  exact reads_openList (.inr rfl) (.inr rfl) white white' (first (125 :: rest))

/-! ### Skipped values -/

variable {skipValue : Scan Unit} {V : Json → Bytes → Prop}

/-- The scanner skips the values whose texts are given, with the whitespace before them. -/
def Skips (skipValue : Scan Unit) (V : Json → Bytes → Prop) : Prop :=
  ∀ v part, V v part → ∀ blank rest, Json.Blank blank → Ends rest →
    Reads skipValue (blank ++ (part ++ rest)) () rest

theorem Skips.readsItem (skips : Skips skipValue V) :
    ReadsItem (fun _ => skipValue) V fun _ _ _ => True :=
  fun v part _ _ value _ => skips v part value

theorem steps_trivial {α : Type} (list : List α) :
    Steps (fun _ (_ _ : Unit) => True) list () () := by
  induction list with
  | nil => exact .nil
  | cons a list ih => exact .cons trivial ih

theorem reads_skipArray {elements : List Json} (skips : Skips skipValue V)
    (starts : ∀ v part, V v part → Json.Starts part) (all : Json.Elements V elements text)
    (rest : Bytes) : Reads (skipArray skipValue) (91 :: (text ++ 93 :: rest)) () rest := by
  obtain ⟨mid, opened, read⟩ := reads_array skips.readsItem starts all (steps_trivial elements)
    Json.blank_nil rest
  exact opened.bind read

theorem reads_skipObject {members : List (Bytes × Json)} (skips : Skips skipValue V)
    (all : Json.Members V members text) (rest : Bytes) :
    Reads (skipObject skipValue) (123 :: (text ++ 125 :: rest)) () rest := by
  obtain ⟨mid, opened, read⟩ := reads_object (fun _ => skips.readsItem) all (steps_trivial members)
    Json.blank_nil rest
  exact opened.bind read

theorem numberByte_eq : (fun b => isDigit b || isNumberTail b) = Json.isNumberByte := by
  funext b
  simp only [isNumberTail, Json.isNumberByte, Bool.or_assoc]

theorem reads_notWord (word text : Bytes) :
    Reads (pure false <&&> lookingAt word) text false text :=
  (Reads.pure false text).bind (.pure false text)

theorem reads_word (word rest : Bytes) :
    Reads (pure true <&&> lookingAt word) (word ++ rest) true (word ++ rest) := by
  have looking := Reads.lookingAt word (word ++ rest)
  rw [List.take_left, decide_eq_true rfl] at looking
  exact (Reads.pure true _).bind looking

theorem reads_skipNumber {b : UInt8} (number : Json.Number (b :: text)) (ends : Ends rest) :
    Reads (skipValueAt skipValue b) (b :: text ++ rest) () rest := by
  obtain ⟨_, _, same, first⟩ := number.cons
  cases same
  have range : b = 45 ∨ (48 ≤ b ∧ b ≤ 57) := by
    simpa [isDigit] using first
  have other : ∀ c : UInt8, c ≠ 45 → ¬(48 ≤ c ∧ c ≤ 57) → b ≠ c := by
    rintro c notSign notDigit rfl
    exact range.elim notSign notDigit
  rw [skipValueAt, if_neg (other 34 (by decide) (by decide)),
    if_neg (other 123 (by decide) (by decide)), if_neg (other 91 (by decide) (by decide)),
    beq_false_of_ne (other 116 (by decide) (by decide)),
    beq_false_of_ne (other 102 (by decide) (by decide)),
    beq_false_of_ne (other 110 (by decide) (by decide))]
  refine (reads_notWord _ _).bind ((reads_notWord _ _).bind ((reads_notWord _ _).bind ?_))
  refine (Reads.require first _).bind ((Reads.advance [b] (text ++ rest)).bind ?_)
  rw [numberByte_eq]
  exact .skipWhile (fun c member => number.bytes c (List.mem_cons_of_mem b member)) ends

theorem enclosed_append (opening close : UInt8) (text rest : Bytes) :
    opening :: (text ++ [close]) ++ rest = opening :: (text ++ close :: rest) := by
  simp

/-- A value is skipped, if the values in it are. -/
theorem reads_skipValueAt {v : Json} {b : UInt8}
    (skips : Skips skipValue fun v part => Json.Value v part ∧ part.length < text.length)
    (value : Json.Value v text) (first : text.head? = some b) (ends : Ends rest) :
    Reads (skipValueAt skipValue b) (text ++ rest) () rest := by
  have starts : ∀ v part, Json.Value v part ∧ part.length < text.length → Json.Starts part :=
    fun v part value => value.1.starts
  cases value with
  | null =>
    cases first
    refine (reads_notWord _ _).bind ((reads_notWord _ _).bind ?_)
    exact (reads_word (ascii "null") rest).bind (Reads.advance (ascii "null") rest)
  | yes =>
    cases first
    exact (reads_word (ascii "true") rest).bind (Reads.advance (ascii "true") rest)
  | no =>
    cases first
    refine (reads_notWord _ _).bind ?_
    exact (reads_word (ascii "false") rest).bind (Reads.advance (ascii "false") rest)
  | number number =>
    obtain ⟨_, _, rfl, -⟩ := number.cons
    cases first
    exact reads_skipNumber number ends
  | string chars =>
    cases first
    rw [enclosed_append]
    exact (reads_parseString Json.blank_nil chars rest).bind (.pure () rest)
  | emptyArray white =>
    cases first
    rw [enclosed_append]
    have opened := reads_openList_empty (.inl rfl) (.inl rfl) Json.blank_nil white rest
    exact opened.bind (.pure () rest)
  | @array elements text all =>
    cases first
    rw [enclosed_append]
    refine reads_skipArray skips starts (all.imp fun v part value short => ⟨value, ?_⟩) rest
    simp only [List.length_append, List.length_cons]
    omega
  | emptyObject white =>
    cases first
    rw [enclosed_append]
    have opened := reads_openList_empty (.inr rfl) (.inr rfl) Json.blank_nil white rest
    exact opened.bind (.pure () rest)
  | @object members text all =>
    cases first
    rw [enclosed_append]
    refine reads_skipObject skips (all.imp fun v part value short => ⟨value, ?_⟩) rest
    simp only [List.length_append, List.length_cons]
    omega

theorem reads_skipValueBody {v : Json}
    (skips : Skips skipValue fun v part => Json.Value v part ∧ part.length < text.length)
    (value : Json.Value v text) (white : Json.Blank blank) (ends : Ends rest) :
    Reads (skipValueBody skipValue) (blank ++ (text ++ rest)) () rest := by
  obtain ⟨b, tail, shape, low, -⟩ := value.starts
  have first : text.head? = some b := by rw [shape, List.head?_cons]
  have reads := reads_skipValueAt skips value first ends
  rw [shape, List.cons_append] at reads ⊢
  have stops : (b :: (tail ++ rest)).head?.any isSpace = false := isSpace_of_lt low
  refine (reads_skipWhitespace white stops).bind ?_
  refine (Reads.atEnd (b :: (tail ++ rest))).bind ((Reads.require rfl _).bind ?_)
  exact (Reads.peekAt rfl).bind reads

/-- Any value is skipped. -/
theorem skips_skipValue : Skips JsonReader.skipValue Json.Value := by
  have nested : ∀ n, Skips (nest skipValueBody n) fun v part =>
      Json.Value v part ∧ part.length < n := by
    -- The values in a value have shorter texts, so `n` levels do for texts shorter than `n`.
    intro n
    induction n with
    | zero => exact fun v part value => absurd value.2 (Nat.not_lt_zero _)
    | succ n ih =>
      intro v part value blank rest white ends
      refine reads_skipValueBody (fun v inner smaller => ih v inner ⟨smaller.1, ?_⟩)
        value.1 white ends
      have := value.2
      have := smaller.2
      omega
  intro v part value blank rest white ends input pos stands
  have length := stands.length
  simp only [List.length_append] at length
  exact nested (input.length + 1) v part ⟨value, by omega⟩ blank rest white ends input pos stands

/-! ### Plain integers -/

theorem Ends.not_number (ends : Ends rest) :
    rest.head?.any isDigit = false ∧ rest.head?.any isNumberTail = false := by
  cases rest with
  | nil => exact ⟨rfl, rfl⟩
  | cons b rest =>
    simpa only [Ends, List.head?_cons, Option.any_some, ← numberByte_eq,
      Bool.or_eq_false_iff] using ends

theorem le_foldl_digits (digits : Bytes) (value : Nat) :
    value ≤ digits.foldl (fun n d => 10 * n + (d.toNat - 48)) value := by
  induction digits generalizing value with
  | nil => exact le_rfl
  | cons d digits ih =>
    have := ih (10 * value + (d.toNat - 48))
    rw [List.foldl_cons]
    omega

/-- The guard against an overflow does not stop a number below `2 ^ 64`. -/
theorem rounds_parseUnsigned {digits : Bytes} (all : ∀ d ∈ digits, isDigit d = true) (value : Nat)
    (fits : digits.foldl (fun n d => 10 * n + (d.toNat - 48)) value < 2 ^ 64) (ends : Ends rest) :
    Rounds parseUnsignedDigit value (digits ++ rest)
      (digits.foldl (fun n d => 10 * n + (d.toNat - 48)) value) rest := by
  induction digits generalizing value with
  | nil =>
    have here := Reads.nextIs isDigit rest
    rw [ends.not_number.1] at here
    exact .last (here.bind (.pure _ rest))
  | cons d digits ih =>
    have here := Reads.nextIs isDigit (d :: (digits ++ rest))
    rw [List.head?_cons, Option.any_some, all d (by simp)] at here
    rw [List.foldl_cons] at fits ⊢
    have later := ih (fun b member => all b (List.mem_cons_of_mem d member)) _ fits
    have bound := le_foldl_digits digits (10 * value + (d.toNat - 48))
    -- The digits to come only make the number larger.
    have guard : ¬value > (2 ^ 64 - 1 - (d.toNat - 48)) / 10 := by omega
    refine .next (here.bind ((Reads.peekAt rfl).bind ((Reads.require guard _).bind ?_))) ?_ later
    · rw [Nat.mul_comm 10 value]
      exact (Reads.advance [d] (digits ++ rest)).bind (.pure _ _)
    · simp

theorem reads_parseUnsigned {digits : Bytes} (white : Json.Blank blank)
    (number : Json.Digits digits) (fits : digitsValue digits < 2 ^ 64) (ends : Ends rest) :
    Reads parseUnsigned (blank ++ (digits ++ rest)) (digitsValue digits) rest := by
  obtain ⟨nonempty, all⟩ := number
  have rounds := rounds_parseUnsigned all 0 fits ends
  have tail := Reads.nextIs isNumberTail rest
  rw [ends.not_number.2] at tail
  cases digits with
  | nil => exact absurd rfl nonempty
  | cons d digits =>
    have digit := all d (by simp)
    have here := Reads.nextIs isDigit (d :: digits ++ rest)
    rw [List.cons_append, List.head?_cons, Option.any_some, digit] at here
    have visible : (d :: digits ++ rest).head?.any isSpace = false := by
      simp only [isDigit, Bool.and_eq_true, decide_eq_true_eq] at digit
      exact isSpace_of_lt (UInt8.lt_of_lt_of_le (by decide) digit.1)
    refine (reads_skipWhitespace white visible).bind (here.bind ((Reads.require rfl _).bind ?_))
    exact rounds.loop.bind (tail.bind ((Reads.require rfl rest).bind (.pure _ rest)))

/-! ### Scenarios -/

variable {defaultRequests : Nat} {key : Bytes} {v : Json} {members : List (Bytes × Json)}

/-- A non-negative integer without a fraction and an exponent. -/
def Plain (v : Json) (n : Nat) : Prop :=
  ∃ digits, v = .number digits ∧ (∀ d ∈ digits, isDigit d = true) ∧ n = digitsValue digits

/-- The number of requests, given the last `requests` of an object. -/
def Counts (defaultRequests : Nat) (last : Option Json) (n : Nat) : Prop :=
  match last with
  | none => n = defaultRequests
  | some v => Plain v n

/-- The members of a scenario: names, which are strings, and plain integers as `requests`. -/
structure IsScenario (members : List (Bytes × Json)) : Prop where
  named : ∃ v, (ascii "name", v) ∈ members
  names : ∀ v, (ascii "name", v) ∈ members → ∃ content, v = .string content
  integers : ∀ v, (ascii "requests", v) ∈ members → ∃ n < 2 ^ 64, Plain v n

/-- The scenario that the members give: the last `name` and the last `requests` count. -/
structure Gives (defaultRequests : Nat) (members : List (Bytes × Json)) (scenario : NamedScenario) :
    Prop where
  name : members.reverse.lookup (ascii "name") = some (.string scenario.name)
  requests : Counts defaultRequests (members.reverse.lookup (ascii "requests")) scenario.requests

theorem Counts.unique {last : Option Json} {n m : Nat} (counts : Counts defaultRequests last n)
    (counts' : Counts defaultRequests last m) : n = m := by
  cases last with
  | none => exact counts.trans counts'.symm
  | some v =>
    obtain ⟨digits, rfl, -, rfl⟩ := counts
    obtain ⟨_, same, -, rfl⟩ := counts'
    cases same
    rfl

theorem Gives.unique {scenario scenario' : NamedScenario}
    (gives : Gives defaultRequests members scenario)
    (gives' : Gives defaultRequests members scenario') : scenario = scenario' := by
  obtain ⟨⟨requests⟩, name⟩ := scenario
  obtain ⟨⟨requests'⟩, name'⟩ := scenario'
  cases gives.name.symm.trans gives'.name
  cases gives.requests.unique gives'.requests
  rfl

/-- What a member changes. -/
inductive ScenarioStep : Bytes × Json → ScenarioFields → ScenarioFields → Prop
  | name {content : Bytes} {state : ScenarioFields} :
      ScenarioStep (ascii "name", .string content) state
        { state with name := content, foundName := true }
  | requests {v : Json} {n : Nat} {state : ScenarioFields} : Plain v n → n < 2 ^ 64 →
      ScenarioStep (ascii "requests", v) state { state with requests := n }
  | other {key : Bytes} {v : Json} {state : ScenarioFields} : key ≠ ascii "name" →
      key ≠ ascii "requests" → ScenarioStep (key, v) state state

theorem reads_scenarioField (key : Bytes) :
    ReadsItem (scenarioField key) Json.Value fun v => ScenarioStep (key, v) := by
  intro v text state state' value step blank rest white ends
  unfold scenarioField
  cases step with
  | name =>
    cases value with
    | string chars =>
      rw [if_pos rfl, enclosed_append]
      exact (reads_parseString white chars rest).bind (.pure _ rest)
  | requests plain fits =>
    obtain ⟨digits, rfl, all, rfl⟩ := plain
    cases value with
    | number number =>
      obtain ⟨_, _, shape, -⟩ := number.cons
      have integer : Json.Digits text := ⟨by simp [shape], all⟩
      rw [if_neg (by decide), if_pos rfl]
      exact (reads_parseUnsigned white integer fits ends).bind (.pure _ rest)
  | other notName notRequests =>
    rw [if_neg notName, if_neg notRequests]
    exact (skips_skipValue v text value blank rest white ends).bind (.pure _ rest)

theorem Steps.concat {α : Type} {Step : α → σ → σ → Prop} {list : List α} {a : α}
    {state'' : σ} (steps : Steps Step list state state') (step : Step a state' state'') :
    Steps Step (list ++ [a]) state state'' := by
  induction steps with
  | nil => exact .cons step .nil
  | cons first _ ih => exact .cons first (ih step)

/-- The variables after some members. -/
structure Gathered (defaultRequests : Nat) (members : List (Bytes × Json))
    (state : ScenarioFields) : Prop where
  name : ∀ v, members.reverse.lookup (ascii "name") = some v →
    state.foundName = true ∧ v = .string state.name
  requests : Counts defaultRequests (members.reverse.lookup (ascii "requests")) state.requests

theorem lookup_concat (members : List (Bytes × Json)) (key : Bytes) (v : Json) (wanted : Bytes) :
    (members ++ [(key, v)]).reverse.lookup wanted =
      if wanted = key then some v else members.reverse.lookup wanted := by
  rw [List.reverse_concat, List.lookup_cons]
  split <;> simp_all

theorem Gathered.step {state : ScenarioFields} (gathered : Gathered defaultRequests members state)
    (name : key = ascii "name" → ∃ content, v = .string content)
    (integer : key = ascii "requests" → ∃ n < 2 ^ 64, Plain v n) :
    ∃ state', ScenarioStep (key, v) state state' ∧
      Gathered defaultRequests (members ++ [(key, v)]) state' := by
  by_cases named : key = ascii "name"
  · obtain ⟨content, rfl⟩ := name named
    subst named
    refine ⟨_, .name, ?_, ?_⟩
    · rw [lookup_concat, if_pos rfl]
      rintro v ⟨⟩
      exact ⟨rfl, rfl⟩
    · rw [lookup_concat, if_neg (by decide)]
      exact gathered.requests
  · by_cases counted : key = ascii "requests"
    · obtain ⟨n, fits, plain⟩ := integer counted
      subst counted
      refine ⟨_, .requests plain fits, ?_, ?_⟩
      · rw [lookup_concat, if_neg (by decide)]
        exact gathered.name
      · rw [lookup_concat, if_pos rfl]
        exact plain
    · refine ⟨state, .other named counted, ?_, ?_⟩
      · rw [lookup_concat, if_neg (Ne.symm named)]
        exact gathered.name
      · rw [lookup_concat, if_neg (Ne.symm counted)]
        exact gathered.requests

/-- The members of an object are steps to the variables that they give. -/
theorem steps_gathered (defaultRequests : Nat)
    (names : ∀ v, (ascii "name", v) ∈ members → ∃ content, v = .string content)
    (integers : ∀ v, (ascii "requests", v) ∈ members → ∃ n < 2 ^ 64, Plain v n) :
    ∃ state, Steps ScenarioStep members ⟨false, defaultRequests, []⟩ state ∧
      Gathered defaultRequests members state := by
  -- From the end, since the last member with a key is the one that counts.
  induction members using List.reverseRecOn with
  | nil => exact ⟨_, .nil, ⟨fun v member => absurd member (by simp), rfl⟩⟩
  | append_singleton members m ih =>
    obtain ⟨key, v⟩ := m
    obtain ⟨state, steps, gathered⟩ := ih (fun v member => names v (List.mem_append_left _ member))
      (fun v member => integers v (List.mem_append_left _ member))
    have name : key = ascii "name" → ∃ content, v = .string content :=
      fun named => names v (by simp [named])
    have integer : key = ascii "requests" → ∃ n < 2 ^ 64, Plain v n :=
      fun counted => integers v (by simp [counted])
    obtain ⟨state', step, gathered⟩ := gathered.step name integer
    exact ⟨state', steps.concat step, gathered⟩

theorem steps_scenario (defaultRequests : Nat) (spec : IsScenario members) :
    ∃ scenario, Gives defaultRequests members scenario ∧
      Steps ScenarioStep members ⟨false, defaultRequests, []⟩
        ⟨true, scenario.requests, scenario.name⟩ := by
  obtain ⟨⟨found, requests, name⟩, steps, gathered⟩ :=
    steps_gathered defaultRequests spec.names spec.integers
  obtain ⟨v, member⟩ := spec.named
  have present : (members.reverse.lookup (ascii "name")).isSome :=
    List.lookup_isSome_iff.mpr ⟨_, List.mem_reverse.mpr member, beq_self_eq_true _⟩
  obtain ⟨last, present⟩ := Option.isSome_iff_exists.mp present
  obtain ⟨rfl, rfl⟩ := gathered.name last present
  exact ⟨⟨⟨requests⟩, name⟩, ⟨present, gathered.requests⟩, steps⟩

/-- The scenario of an element is appended to those before it. -/
def ElementStep (defaultRequests : Nat) (v : Json) (scenarios scenarios' : List NamedScenario) :
    Prop :=
  ∃ members scenario, v = .object members ∧ scenarios' = scenarios ++ [scenario] ∧
    Steps ScenarioStep members ⟨false, defaultRequests, []⟩
      ⟨true, scenario.requests, scenario.name⟩

theorem reads_parseScenarioObject (defaultRequests : Nat) :
    ReadsItem (parseScenarioObject defaultRequests) Json.Value (ElementStep defaultRequests) := by
  intro v text scenarios scenarios' value step blank rest white _
  obtain ⟨members, scenario, rfl, rfl, steps⟩ := step
  cases value with
  | emptyObject => cases steps
  | object all =>
    rw [enclosed_append]
    obtain ⟨mid, opened, read⟩ := reads_object reads_scenarioField all steps white rest
    refine opened.bind ((Reads.require rfl mid).bind (read.bind ?_))
    exact (Reads.require rfl rest).bind (.pure _ rest)

/-! ### Matrices -/

/-- The documents with scenarios: objects with one member `scenarios`, the elements of which are
scenarios. -/
def IsMatrix (document : Json) (elements : List Json) : Prop :=
  ∃ members, document = .object members ∧
    members.filter (·.1 = ascii "scenarios") = [(ascii "scenarios", .array elements)] ∧
    elements ≠ [] ∧ ∀ v ∈ elements, ∃ members, v = .object members ∧ IsScenario members

/-- The scenarios that the elements give, in their order. -/
def AllGive (defaultRequests : Nat) (elements : List Json) (scenarios : List NamedScenario) :
    Prop :=
  List.Forall₂ (fun v scenario => ∃ members, v = .object members ∧
    Gives defaultRequests members scenario) elements scenarios

variable {elements : List Json} {scenarios : List NamedScenario}

theorem AllGive.unique {scenarios' : List NamedScenario}
    (give : AllGive defaultRequests elements scenarios)
    (give' : AllGive defaultRequests elements scenarios') : scenarios = scenarios' := by
  refine List.right_unique_forall₂' ?_ give give'
  rintro v scenario scenario' ⟨members, rfl, gives⟩ ⟨_, same, gives'⟩
  cases same
  exact gives.unique gives'

theorem steps_elements (defaultRequests : Nat)
    (all : ∀ v ∈ elements, ∃ members, v = .object members ∧ IsScenario members) :
    ∃ scenarios, AllGive defaultRequests elements scenarios ∧ ∀ before,
      Steps (ElementStep defaultRequests) elements before (before ++ scenarios) := by
  induction elements with
  | nil =>
    refine ⟨[], .nil, fun before => ?_⟩
    rw [List.append_nil]
    exact .nil
  | cons v elements ih =>
    obtain ⟨members, rfl, spec⟩ := all v (by simp)
    obtain ⟨scenario, gives, steps⟩ := steps_scenario defaultRequests spec
    obtain ⟨scenarios, later, others⟩ := ih fun v member => all v (List.mem_cons_of_mem _ member)
    refine ⟨scenario :: scenarios, .cons ⟨members, rfl, gives⟩ later, fun before => ?_⟩
    have rest := others (before ++ [scenario])
    rw [List.append_assoc, List.singleton_append] at rest
    exact .cons ⟨members, scenario, rfl, rfl, steps⟩ rest

theorem reads_parseScenarioArray (value : Json.Value (.array elements) text)
    (nonempty : elements ≠ []) (steps : Steps (ElementStep defaultRequests) elements [] scenarios)
    (white : Json.Blank blank) (rest : Bytes) :
    Reads (parseScenarioArray defaultRequests []) (blank ++ (text ++ rest)) scenarios rest := by
  cases value with
  | emptyArray => exact absurd rfl nonempty
  | array texts =>
    rw [enclosed_append]
    obtain ⟨mid, opened, read⟩ := reads_array (reads_parseScenarioObject defaultRequests)
      (fun _ _ value => value.starts) texts steps white rest
    exact opened.bind read

/-- What a member of the document changes. -/
inductive MatrixStep (defaultRequests : Nat) : Bytes × Json → MatrixFields → MatrixFields → Prop
  | scenarios {elements : List Json} {scenarios : List NamedScenario} : elements ≠ [] →
      Steps (ElementStep defaultRequests) elements [] scenarios →
      MatrixStep defaultRequests (ascii "scenarios", .array elements) ⟨false, []⟩ ⟨true, scenarios⟩
  | other {key : Bytes} {v : Json} {state : MatrixFields} : key ≠ ascii "scenarios" →
      MatrixStep defaultRequests (key, v) state state

theorem reads_matrixField (defaultRequests : Nat) (key : Bytes) :
    ReadsItem (matrixField defaultRequests key) Json.Value fun v =>
      MatrixStep defaultRequests (key, v) := by
  intro v text state state' value step blank rest white ends
  unfold matrixField
  cases step with
  | scenarios nonempty steps =>
    rw [if_pos rfl]
    refine (Reads.require rfl _).bind ?_
    exact (reads_parseScenarioArray value nonempty steps white rest).bind (.pure _ rest)
  | other different =>
    rw [if_neg different]
    exact (skips_skipValue v text value blank rest white ends).bind (.pure _ rest)

theorem steps_others {state : MatrixFields}
    (others : members.filter (·.1 = ascii "scenarios") = []) :
    Steps (MatrixStep defaultRequests) members state state := by
  induction members with
  | nil => exact .nil
  | cons m members ih =>
    simp only [List.filter_cons, decide_eq_true_eq] at others
    split at others
    · cases others
    · rename_i different
      exact .cons (.other different) (ih others)

/-- One member holds the scenarios, and the others change nothing. -/
theorem steps_matrix {m : Bytes × Json} {state state' : MatrixFields}
    (one : members.filter (·.1 = ascii "scenarios") = [m])
    (step : MatrixStep defaultRequests m state state') :
    Steps (MatrixStep defaultRequests) members state state' := by
  induction members with
  | nil => cases one
  | cons m' members ih =>
    simp only [List.filter_cons, decide_eq_true_eq] at one
    split at one
    · obtain ⟨rfl, others⟩ := List.cons.inj one
      exact .cons step (steps_others others)
    · rename_i different
      exact .cons (.other different) (ih one)

theorem reads_parseScenarioMatrix {document : Json} (texts : Json.Document document text)
    (matrix : IsMatrix document elements) :
    ∃ scenarios, AllGive defaultRequests elements scenarios ∧
      Reads (parseScenarioMatrix defaultRequests) text scenarios [] := by
  obtain ⟨before, middle, after, white, value, white', rfl⟩ := texts
  obtain ⟨members, rfl, one, nonempty, all⟩ := matrix
  obtain ⟨scenarios, give, others⟩ := steps_elements defaultRequests all
  have steps := steps_matrix one (.scenarios nonempty (others []))
  refine ⟨scenarios, give, ?_⟩
  cases value with
  | emptyObject => cases one
  | object texts =>
    rw [enclosed_append]
    obtain ⟨mid, opened, read⟩ := reads_object (reads_matrixField defaultRequests) texts steps
      white after
    have found : scenarios ≠ [] := by
      rintro rfl
      cases give
      exact nonempty rfl
    have skipped : Reads skipWhitespace (after ++ []) () [] := reads_skipWhitespace white' rfl
    rw [List.append_nil] at skipped
    refine opened.bind ((Reads.require rfl mid).bind (read.bind ?_))
    refine (Reads.require ⟨rfl, found⟩ after).bind ?_
    exact (skipped.bind (Reads.atEnd [])).bind ((Reads.require rfl []).bind (.pure _ []))

/-- The text of a document with scenarios is read as these, and on every text the reader ends, at a
position in the text. -/
theorem parseScenarioMatrix_reads (defaultRequests : Nat) :
    (∀ document elements text, Json.Document document text → IsMatrix document elements →
      ∃ scenarios, AllGive defaultRequests elements scenarios ∧
        (parseScenarioMatrix defaultRequests).run text = .ok scenarios text.length) ∧
    ∀ contents, ∃ pos ≤ contents.length,
      (parseScenarioMatrix defaultRequests).run contents = .error .rejected pos ∨
        ∃ scenarios, (parseScenarioMatrix defaultRequests).run contents = .ok scenarios pos := by
  constructor
  · intro document elements text texts matrix
    obtain ⟨scenarios, give, reads⟩ := reads_parseScenarioMatrix texts matrix
    rw [← List.append_nil text] at reads
    have run := reads.run
    rw [List.append_nil] at run
    exact ⟨scenarios, give, run⟩
  · intro contents
    have settles := settles_parseScenarioMatrix defaultRequests (Nat.zero_le contents.length)
    rcases settles with ⟨scenarios, pos, ok, -, inside, -⟩ | ⟨pos, rejected, inside⟩
    · exact ⟨pos, inside, .inr ⟨scenarios, ok⟩⟩
    · exact ⟨pos, inside, .inl rejected⟩

theorem key_jsonEscapeString (white : Json.Blank blank) (name : Bytes) :
    Json.Key name (blank ++ (34 :: (jsonEscapeString name ++ 34 :: ([] ++ [58])))) :=
  ⟨blank, _, [], white, chars_jsonEscapeString name, Json.blank_nil, rfl⟩

theorem digits_seven : Json.Digits (ascii "7") := by
  refine ⟨by decide, fun d member => ?_⟩
  cases List.mem_singleton.mp (show d ∈ [55] from member)
  rfl

/-- The members of a scenario with 7 requests. -/
def sevenRequests : List (Bytes × Json) :=
  [(ascii "requests", .number (ascii "7")), (ascii "name", .string (ascii "a"))]

theorem isScenario_seven : IsScenario sevenRequests := by
  refine ⟨⟨_, .tail _ (.head _)⟩, fun v member => ?_, fun v member => ?_⟩
  · obtain ⟨no, -⟩ | same := by simpa [sevenRequests] using member
    · exact absurd no (by decide)
    · exact ⟨_, same⟩
  · obtain rfl | ⟨no, -⟩ := by simpa [sevenRequests] using member
    · exact ⟨7, by decide, _, rfl, digits_seven.2, rfl⟩
    · exact absurd no (by decide)

theorem gives_seven (defaultRequests : Nat) :
    Gives defaultRequests sevenRequests ⟨⟨7⟩, ascii "a"⟩ :=
  ⟨rfl, ascii "7", rfl, digits_seven.2, rfl⟩

/-- A document with the scenario behind another member. -/
def sevenText : Bytes :=
  ascii " \x7b\"v\": [null], \"scenarios\": [\x7b\"requests\": 7, \"name\": \"a\"\x7d]\x7d\n"

theorem document_seven : Json.Document (.object [(ascii "v", .array [.null]),
    (ascii "scenarios", .array [.object sevenRequests])]) sevenText := by
  have space : Json.Blank [32] := by simp [Json.Blank, Json.isWhitespace]
  have newline : Json.Blank [10] := by simp [Json.Blank, Json.isWhitespace]
  have integer : Json.Integer (ascii "7") := .inr ⟨digits_seven, by decide⟩
  have seven : Json.Number (ascii "7") :=
    ⟨[], _, [], [], .inl rfl, integer, .inl rfl, .inl rfl, rfl⟩
  have requests := key_jsonEscapeString Json.blank_nil (ascii "requests")
  have name := key_jsonEscapeString space (ascii "name")
  have content := chars_jsonEscapeString (ascii "a")
  have scenario := Json.Value.object (.next requests space (.number seven) Json.blank_nil
    (.last name space (.string content) Json.blank_nil))
  have other := key_jsonEscapeString Json.blank_nil (ascii "v")
  have nulls := Json.Value.array (.last Json.blank_nil .null Json.blank_nil)
  have key := key_jsonEscapeString space (ascii "scenarios")
  have list := Json.Value.array (.last Json.blank_nil scenario Json.blank_nil)
  have document := Json.Value.object (.next other space nulls Json.blank_nil
    (.last key space list Json.blank_nil))
  exact ⟨[32], _, [10], space, document, newline, by decide⟩

theorem parseScenarioMatrix_reads_seven :
    (parseScenarioMatrix 100).run sevenText = .ok [⟨⟨7⟩, ascii "a"⟩] sevenText.length := by
  have all : ∀ v ∈ [Json.object sevenRequests], ∃ members, v = .object members ∧
      IsScenario members := by
    intro v member
    cases List.mem_singleton.mp member
    exact ⟨_, rfl, isScenario_seven⟩
  obtain ⟨scenarios, give, run⟩ := (parseScenarioMatrix_reads 100).1 _ [.object sevenRequests] _
    document_seven ⟨_, rfl, rfl, by simp, all⟩
  cases give.unique (.cons ⟨_, rfl, gives_seven 100⟩ .nil)
  exact run

end JsonReader

end DistributedCache.Bench

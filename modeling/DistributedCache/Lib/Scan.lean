import Mathlib.Data.List.Basic

/-! Scanners: programs that read a text of bytes from a position which they move, as hand-written
recursive-descent parsers do.  Reads outside of the text are checked.  A loop has one round more
than the text has bytes, and a recursion one level more, and what is not over by then is reported.
`Reads` is the rule for what a scanner accepts, and `Settles` the rule for how it ends on any
text. -/

namespace Lib

/-- Why a scanner stops early: it rejects the text, it reads outside of the text, or a loop or a
recursion is not over. -/
inductive Stop
  | rejected
  | outOfRange
  | unfinished
deriving DecidableEq, Repr

/-- A scanner of a text, whose state is the position. -/
abbrev Scan (α : Type) := ReaderT (List UInt8) (EStateM Stop Nat) α

namespace Scan

variable {α β : Type}

/-- The outcome of a scanner from the start of a text. -/
def run (p : Scan α) (text : List UInt8) : EStateM.Result Stop Nat α := p text 0

def reject : Scan α := fun _ pos => .error .rejected pos

/-- Goes on only if a condition holds. -/
def require (p : Prop) [Decidable p] : Scan Unit := if p then pure () else reject

/-- Whether the position is at the end. -/
def atEnd : Scan Bool := fun input pos => .ok (decide (input.length ≤ pos)) pos

/-- Whether `n` bytes are left. -/
def hasRoom (n : Nat) : Scan Bool := fun input pos => .ok (decide (pos + n ≤ input.length)) pos

/-- The byte `k` places after the position. -/
def peekAt (k : Nat) : Scan UInt8 := fun input pos =>
  match input[pos + k]? with
  | some b => .ok b pos
  | none => .error .outOfRange pos

def advance (n : Nat) : Scan Unit := fun _ pos => .ok () (pos + n)

/-- The byte at the position, which moves past it. -/
def next : Scan UInt8 := do
  let b ← peekAt 0
  advance 1
  return b

/-- Whether there is a byte at the position and it passes a test. -/
def nextIs (test : UInt8 → Bool) : Scan Bool := do
  if ← atEnd then return false
  else return test (← peekAt 0)

/-- Whether `word` stands at the position, which has to be in the text or at its end. -/
def lookingAt (word : List UInt8) : Scan Bool := fun input pos =>
  if pos ≤ input.length then .ok (decide ((input.drop pos).take word.length = word)) pos
  else .error .outOfRange pos

/-- A loop with a number of rounds. -/
def iterate (body : β → Scan (β ⊕ α)) : Nat → β → Scan α
  | 0, _ => fun _ pos => .error .unfinished pos
  | rounds + 1, b => do
    match ← body b with
    | .inl b => iterate body rounds b
    | .inr a => return a

/-- A loop that goes on with the left results of its body. -/
def loop (body : β → Scan (β ⊕ α)) (b : β) : Scan α := fun input =>
  iterate body (input.length + 1) b input

/-- A recursion with a number of levels. -/
def nest (body : Scan α → Scan α) : Nat → Scan α
  | 0 => fun _ pos => .error .unfinished pos
  | levels + 1 => body (nest body levels)

/-- A scanner that calls itself. -/
def recurse (body : Scan α → Scan α) : Scan α := fun input => nest body (input.length + 1) input

/-- `while (pos < size && test(input[pos])) ++pos`. -/
def skipWhile (test : UInt8 → Bool) : Scan Unit :=
  loop (fun _ => do
    if ← nextIs test then
      advance 1
      return .inl ()
    else return .inr ()) ()

/-! ### What a scanner accepts -/

/-- The position stands before `text`, which is the rest of the input. -/
def Stands (input : List UInt8) (pos : Nat) (text : List UInt8) : Prop :=
  ∃ before, input = before ++ text ∧ pos = before.length

/-- Before `text` the scanner returns `a` and moves to `rest`. -/
def Reads (p : Scan α) (text : List UInt8) (a : α) (rest : List UInt8) : Prop :=
  ∀ input pos, Stands input pos text →
    ∃ after, p input pos = .ok a after ∧ Stands input after rest

variable {input text mid rest : List UInt8} {pos : Nat} {a : α} {b : UInt8}

theorem bind_ok {p : Scan α} {f : α → Scan β} {after : Nat} (ok : p input pos = .ok a after) :
    (p >>= f) input pos = f a input after := by
  show EStateM.bind (p input) (fun a => f a input) pos = _
  rw [EStateM.bind, ok]

theorem bind_error {p : Scan α} {f : α → Scan β} {stop : Stop} {after : Nat}
    (error : p input pos = .error stop after) : (p >>= f) input pos = .error stop after := by
  show EStateM.bind (p input) (fun a => f a input) pos = _
  rw [EStateM.bind, error]

/-- A sequence that succeeds has succeeded at its first part. -/
theorem bind_eq_ok {p : Scan α} {f : α → Scan β} {b : β} {after : Nat}
    (ok : (p >>= f) input pos = .ok b after) :
    ∃ a mid, p input pos = .ok a mid ∧ f a input mid = .ok b after := by
  cases first : p input pos with
  | ok a mid => exact ⟨a, mid, rfl, (bind_ok first).symm.trans ok⟩
  | error stop mid =>
    rw [bind_error first] at ok
    cases ok

theorem require_eq_ok {p : Prop} [Decidable p] {after : Nat}
    (ok : require p input pos = .ok () after) : p := by
  unfold require at ok
  split at ok
  · assumption
  · cases ok

namespace Stands

theorem length (stands : Stands input pos text) : pos + text.length = input.length := by
  obtain ⟨before, rfl, rfl⟩ := stands
  rw [List.length_append]

theorem move (stands : Stands input pos (text ++ rest)) :
    Stands input (pos + text.length) rest := by
  obtain ⟨before, rfl, rfl⟩ := stands
  exact ⟨before ++ text, (List.append_assoc ..).symm, (List.length_append ..).symm⟩

theorem drop (stands : Stands input pos text) : input.drop pos = text := by
  obtain ⟨before, rfl, rfl⟩ := stands
  exact List.drop_left

theorem getElem? (stands : Stands input pos text) (k : Nat) : input[pos + k]? = text[k]? := by
  rw [← stands.drop, List.getElem?_drop]

end Stands

/-- What a scanner reads from the start of a text. -/
theorem Reads.run {p : Scan α} (reads : Reads p (text ++ rest) a rest) :
    p.run (text ++ rest) = .ok a text.length := by
  obtain ⟨after, ok, stands⟩ := reads (text ++ rest) 0 ⟨[], rfl, rfl⟩
  have length := stands.length
  rw [List.length_append] at length
  have same : after = text.length := by omega
  rw [Scan.run, ok, same]

theorem Reads.pure (a : α) (text : List UInt8) : Reads (pure a) text a text :=
  fun _ pos stands => ⟨pos, rfl, stands⟩

/-- One scanner after the other. -/
theorem Reads.bind {p : Scan α} {f : α → Scan β} {c : β} (first : Reads p text a mid)
    (second : Reads (f a) mid c rest) : Reads (p >>= f) text c rest := by
  intro input pos stands
  obtain ⟨between, ok, stands⟩ := first input pos stands
  obtain ⟨after, ok', stands⟩ := second input between stands
  exact ⟨after, (bind_ok ok).trans ok', stands⟩

theorem Reads.require {p : Prop} [Decidable p] (holds : p) (text : List UInt8) :
    Reads (require p) text () text := by
  rw [Scan.require, if_pos holds]
  exact .pure () text

theorem Reads.atEnd (text : List UInt8) : Reads atEnd text (decide (text = [])) text := by
  intro input pos stands
  have length := stands.length
  refine ⟨pos, ?_, stands⟩
  have same : input.length ≤ pos ↔ text = [] := by
    rw [← List.length_eq_zero_iff]
    omega
  simp only [Scan.atEnd, same]

theorem Reads.hasRoom (n : Nat) (text : List UInt8) :
    Reads (hasRoom n) text (decide (n ≤ text.length)) text := by
  intro input pos stands
  have length := stands.length
  refine ⟨pos, ?_, stands⟩
  have same : pos + n ≤ input.length ↔ n ≤ text.length := by omega
  simp only [Scan.hasRoom, same]

theorem Reads.peekAt {k : Nat} (here : text[k]? = some b) : Reads (peekAt k) text b text := by
  intro input pos stands
  refine ⟨pos, ?_, stands⟩
  rw [Scan.peekAt, stands.getElem?, here]

theorem Reads.advance (text rest : List UInt8) :
    Reads (advance text.length) (text ++ rest) () rest :=
  fun _ pos stands => ⟨pos + text.length, rfl, stands.move⟩

theorem Reads.next (b : UInt8) (rest : List UInt8) : Reads next (b :: rest) b rest :=
  (Reads.peekAt rfl).bind ((Reads.advance [b] rest).bind (.pure b rest))

theorem Reads.nextIs (test : UInt8 → Bool) (text : List UInt8) :
    Reads (nextIs test) text (text.head?.any test) text := by
  refine (Reads.atEnd text).bind ?_
  cases text with
  | nil => exact .pure false []
  | cons b text => exact Reads.bind (Reads.peekAt rfl) (.pure (test b) (b :: text))

theorem Reads.lookingAt (word text : List UInt8) :
    Reads (lookingAt word) text (decide (text.take word.length = word)) text := by
  intro input pos stands
  have length := stands.length
  refine ⟨pos, ?_, stands⟩
  rw [Scan.lookingAt, if_pos (by omega), stands.drop]

/-- The rounds of a loop, each of which moves the position. -/
inductive Rounds (body : β → Scan (β ⊕ α)) : β → List UInt8 → α → List UInt8 → Prop
  | last {b : β} {text rest : List UInt8} {a : α} : Reads (body b) text (.inr a) rest →
      Rounds body b text a rest
  | next {b b' : β} {text mid rest : List UInt8} {a : α} : Reads (body b) text (.inl b') mid →
      mid.length < text.length → Rounds body b' mid a rest → Rounds body b text a rest

theorem Rounds.iterate {body : β → Scan (β ⊕ α)} {b : β} (rounds : Rounds body b text a rest) :
    ∀ n, text.length < n → Reads (iterate body n b) text a rest := by
  induction rounds with
  | last reads =>
    intro n enough
    cases n with
    | zero => omega
    | succ n => exact reads.bind (.pure _ _)
  | next reads shorter _ ih =>
    intro n enough
    cases n with
    | zero => omega
    | succ n => exact reads.bind (ih n (by omega))

theorem Rounds.loop {body : β → Scan (β ⊕ α)} {b : β} (rounds : Rounds body b text a rest) :
    Reads (loop body b) text a rest := by
  intro input pos stands
  have length := stands.length
  exact rounds.iterate (input.length + 1) (by omega) input pos stands

theorem Reads.skipWhile {test : UInt8 → Bool} (passes : ∀ b ∈ text, test b = true)
    (stops : rest.head?.any test = false) : Reads (skipWhile test) (text ++ rest) () rest := by
  apply Rounds.loop
  induction text with
  | nil =>
    have no := Reads.nextIs test rest
    rw [stops] at no
    exact .last (no.bind (.pure _ rest))
  | cons b text ih =>
    have yes := Reads.nextIs test (b :: (text ++ rest))
    rw [List.head?_cons, Option.any_some, passes b (by simp)] at yes
    refine .next (yes.bind ((Reads.advance [b] (text ++ rest)).bind (.pure _ _))) ?_
      (ih fun c member => passes c (List.mem_cons_of_mem b member))
    simp

/-! ### How a scanner ends -/

/-- From a position in the text the scanner returns, at a later position in the text and with `Q`,
or rejects the text at a position in it. -/
def Settles (p : Scan α) (input : List UInt8) (pos : Nat) (Q : α → Nat → Prop) : Prop :=
  (∃ a after, p input pos = .ok a after ∧ pos ≤ after ∧ after ≤ input.length ∧ Q a after) ∨
    ∃ after, p input pos = .error .rejected after ∧ after ≤ input.length

/-- A scanner that moves the position if it returns. -/
def Moves (p : Scan α) (input : List UInt8) (pos : Nat) : Prop :=
  Settles p input pos fun _ after => pos < after

variable {p : Scan α} {Q : α → Nat → Prop}

theorem Settles.imp {Q' : α → Nat → Prop} (settles : Settles p input pos Q)
    (weaker : ∀ a after, pos ≤ after → after ≤ input.length → Q a after → Q' a after) :
    Settles p input pos Q' := by
  rcases settles with ⟨a, after, ok, later, inside, holds⟩ | rejects
  · exact .inl ⟨a, after, ok, later, inside, weaker a after later inside holds⟩
  · exact .inr rejects

theorem Settles.pure (inside : pos ≤ input.length) (holds : Q a pos) :
    Settles (pure a) input pos Q :=
  .inl ⟨a, pos, rfl, Nat.le_refl _, inside, holds⟩

theorem Settles.reject (inside : pos ≤ input.length) : Settles reject input pos Q :=
  .inr ⟨pos, rfl, inside⟩

theorem Settles.bind {f : α → Scan β} {R : β → Nat → Prop} (first : Settles p input pos Q)
    (second : ∀ a after, pos ≤ after → after ≤ input.length → Q a after →
      Settles (f a) input after R) : Settles (p >>= f) input pos R := by
  rcases first with ⟨a, between, ok, later, inside, holds⟩ | ⟨after, error, inside⟩
  · rcases second a between later inside holds with ⟨c, after, ok', later', rest⟩ | ⟨after, rest⟩
    · exact .inl ⟨c, after, (bind_ok ok).trans ok', by omega, rest⟩
    · rw [Settles, bind_ok ok]
      exact .inr ⟨after, rest⟩
  · exact .inr ⟨after, bind_error error, inside⟩

theorem Settles.require {c : Prop} [Decidable c] (inside : pos ≤ input.length) :
    Settles (require c) input pos fun _ after => after = pos ∧ c := by
  unfold Scan.require
  split
  · rename_i holds
    exact .pure inside ⟨rfl, holds⟩
  · exact .reject inside

/-- A test, and what follows if it is passed. -/
theorem Settles.check {c : α → Prop} [DecidablePred c] {f : Unit → Scan β} {R : β → Nat → Prop}
    (test : Settles p input pos Q)
    (passed : ∀ a after, pos ≤ after → after ≤ input.length → Q a after → c a →
      Settles (f ()) input after R) :
    Settles (p >>= fun a => Scan.require (c a) >>= f) input pos R := by
  refine test.bind fun a after later inside holds => ?_
  refine (Settles.require inside).bind fun _ after' _ _ facts => ?_
  obtain ⟨rfl, yes⟩ := facts
  exact passed a after' later inside holds yes

theorem Settles.atEnd (inside : pos ≤ input.length) :
    Settles atEnd input pos fun done after =>
      after = pos ∧ (done = false → pos < input.length) := by
  refine .inl ⟨_, pos, rfl, Nat.le_refl _, inside, rfl, fun more => ?_⟩
  simpa using more

theorem Settles.hasRoom (n : Nat) (inside : pos ≤ input.length) :
    Settles (hasRoom n) input pos fun room after =>
      after = pos ∧ (room = true → pos + n ≤ input.length) := by
  refine .inl ⟨_, pos, rfl, Nat.le_refl _, inside, rfl, fun room => ?_⟩
  simpa using room

theorem Settles.peekAt {k : Nat} (inside : pos + k < input.length) :
    Settles (peekAt k) input pos fun _ after => after = pos := by
  refine .inl ⟨input[pos + k], pos, ?_, Nat.le_refl _, by omega, rfl⟩
  rw [Scan.peekAt, List.getElem?_eq_getElem inside]

theorem Settles.advance {n : Nat} (inside : pos + n ≤ input.length) :
    Settles (advance n) input pos fun _ after => after = pos + n :=
  .inl ⟨(), pos + n, rfl, by omega, inside, rfl⟩

theorem Settles.next (inside : pos < input.length) :
    Settles next input pos fun _ after => after = pos + 1 := by
  refine (Settles.peekAt inside).bind fun b after _ _ same => ?_
  subst same
  refine (Settles.advance inside).bind fun _ after _ inside same => ?_
  exact .pure inside same

theorem Settles.nextIs (test : UInt8 → Bool) (inside : pos ≤ input.length) :
    Settles (nextIs test) input pos fun passes after =>
      after = pos ∧ (passes = true → pos < input.length) := by
  refine (Settles.atEnd inside).bind fun done after _ _ facts => ?_
  obtain ⟨rfl, more⟩ := facts
  cases done with
  | true => exact .pure inside ⟨rfl, fun no => by cases no⟩
  | false =>
    refine Settles.bind (Settles.peekAt (more rfl)) fun b after _ inside same => ?_
    exact .pure inside ⟨same, fun _ => more rfl⟩

theorem Settles.lookingAt (word : List UInt8) (inside : pos ≤ input.length) :
    Settles (lookingAt word) input pos fun there after =>
      after = pos ∧ (there = true → pos + word.length ≤ input.length) := by
  refine .inl ⟨_, pos, if_pos inside, Nat.le_refl _, inside, rfl, fun there => ?_⟩
  have whole := congrArg List.length (of_decide_eq_true there)
  rw [List.length_take, List.length_drop] at whole
  omega

/-- A round either ends a loop or moves the position. -/
theorem Settles.iterate {body : β → Scan (β ⊕ α)} {n : Nat} {b : β}
    (round : ∀ b here, pos ≤ here → here ≤ input.length →
      Settles (body b) input here fun result after => result.isLeft = true → here < after)
    (inside : pos ≤ input.length) (enough : input.length < pos + n) :
    Settles (iterate body n b) input pos fun _ _ => True := by
  induction n generalizing pos b with
  | zero => omega
  | succ n ih =>
    refine (round b pos (Nat.le_refl pos) inside).bind fun result after later inside moves => ?_
    cases result with
    | inr a => exact .pure inside trivial
    | inl b' =>
      have moved := moves rfl
      exact ih (fun c here above => round c here (by omega)) inside (by omega)

theorem Settles.loop {body : β → Scan (β ⊕ α)} {b : β}
    (round : ∀ b here, pos ≤ here → here ≤ input.length →
      Settles (body b) input here fun result after => result.isLeft = true → here < after)
    (inside : pos ≤ input.length) : Settles (loop body b) input pos fun _ _ => True :=
  Settles.iterate round inside (by omega)

theorem Settles.skipWhile (test : UInt8 → Bool) (inside : pos ≤ input.length) :
    Settles (skipWhile test) input pos fun _ _ => True := by
  refine .loop (fun _ here _ inside => ?_) inside
  refine (Settles.nextIs test inside).bind fun passes after _ _ facts => ?_
  obtain ⟨rfl, more⟩ := facts
  cases passes with
  | false => exact .pure inside fun left => by cases left
  | true =>
    refine Settles.bind (Settles.advance (more rfl)) fun _ after _ inside moved => ?_
    exact .pure inside fun _ => by omega

/-- A recursion that moves the position before it calls itself ends. -/
theorem Moves.recurse {body : Scan α → Scan α}
    (level : ∀ (inner : Scan α) (here : Nat), here ≤ input.length →
      (∀ later, here < later → later ≤ input.length → Moves inner input later) →
      Moves (body inner) input here)
    (inside : pos ≤ input.length) : Moves (recurse body) input pos := by
  have nested : ∀ n here, here ≤ input.length → input.length < here + n →
      Moves (nest body n) input here := by
    intro n
    induction n with
    | zero => omega
    | succ n ih =>
      intro here inside enough
      exact level (nest body n) here inside fun later after inside => ih later inside (by omega)
  exact nested (input.length + 1) pos inside (by omega)

end Scan

end Lib

import DistributedCache.Bench.JsonReader

/-! The JSON reader ends on every text.  It reads no byte outside of the text, each round of a loop
that goes on moves the position, and so does each level of the recursion. -/

namespace DistributedCache.Bench.JsonReader

open Lib Lib.Scan

variable {σ : Type} {input : Bytes} {pos : Nat}

theorem settles_skipWhitespace (inside : pos ≤ input.length) :
    Settles skipWhitespace input pos fun _ _ => True :=
  .skipWhile isSpace inside

theorem settles_consume (expected : UInt8) (inside : pos ≤ input.length) :
    Settles (consume expected) input pos fun found after => found = true → pos < after := by
  refine (settles_skipWhitespace inside).bind fun _ here later inside _ => ?_
  refine (Settles.nextIs (· = expected) inside).bind fun found after _ _ facts => ?_
  obtain ⟨rfl, more⟩ := facts
  cases found with
  | false => exact .pure inside fun no => by cases no
  | true =>
    refine Settles.bind (Settles.advance (more rfl)) fun _ after _ inside moved => ?_
    exact .pure inside fun _ => by omega

/-! ### Strings and numbers -/

theorem settles_appendUtf8 (codepoint : Nat) (out : Bytes) (inside : pos ≤ input.length) :
    Settles (appendUtf8 codepoint out) input pos fun _ _ => True := by
  unfold appendUtf8
  split
  · exact .pure inside trivial
  · exact .reject inside

theorem settles_parseHexDigits {n : Nat} (value : Nat) (room : pos + n ≤ input.length) :
    Settles (parseHexDigits n value) input pos fun _ _ => True := by
  induction n generalizing pos value with
  | zero => exact .pure room trivial
  | succ n ih =>
    refine (Settles.next (by omega)).bind fun ch after _ inside moved => ?_
    dsimp only
    split_ifs
    · exact ih _ (by omega)
    · exact ih _ (by omega)
    · exact ih _ (by omega)
    · exact .reject inside

theorem settles_parseHex4 (inside : pos ≤ input.length) :
    Settles parseHex4 input pos fun _ _ => True := by
  refine (Settles.hasRoom 4 inside).check fun room here _ _ facts yes => ?_
  obtain ⟨rfl, enough⟩ := facts
  exact settles_parseHexDigits 0 (enough yes)

theorem settles_parseUnicodeEscape (out : Bytes) (inside : pos ≤ input.length) :
    Settles (parseUnicodeEscape out) input pos fun _ _ => True := by
  refine (settles_parseHex4 inside).bind fun codepoint here _ inside _ => ?_
  split_ifs
  · refine (Settles.hasRoom 6 inside).check fun room here _ inside facts yes => ?_
    obtain ⟨rfl, enough⟩ := facts
    have room := enough yes
    refine (Settles.peekAt (k := 0) (by omega)).check fun _ here _ _ same _ => ?_
    subst same
    refine (Settles.peekAt (k := 1) (by omega)).check fun _ here _ _ same _ => ?_
    subst same
    refine (Settles.advance (by omega)).bind fun _ here _ inside _ => ?_
    refine (settles_parseHex4 inside).bind fun low here _ inside _ => ?_
    refine (Settles.require inside).bind fun _ here _ inside _ => ?_
    exact settles_appendUtf8 _ out inside
  · exact .reject inside
  · exact settles_appendUtf8 codepoint out inside

theorem settles_parseEscape (esc : UInt8) (out : Bytes) (inside : pos ≤ input.length) :
    Settles (parseEscape esc out) input pos fun _ _ => True := by
  unfold parseEscape
  split
  case _ | _ | _ | _ | _ | _ | _ | _ => exact .pure inside trivial
  · exact settles_parseUnicodeEscape out inside
  · exact .reject inside

theorem moves_parseStringByte (out : Bytes) (inside : pos ≤ input.length) :
    Moves (parseStringByte out) input pos := by
  refine (Settles.atEnd inside).check fun done here _ _ facts no => ?_
  obtain ⟨rfl, more⟩ := facts
  refine (Settles.next (more no)).bind fun ch here _ inside moved => ?_
  split_ifs
  · exact .pure inside (by omega)
  · refine (Settles.atEnd inside).check fun done after _ _ facts no => ?_
    obtain ⟨rfl, more⟩ := facts
    refine (Settles.next (more no)).bind fun esc here _ inside moved => ?_
    refine (settles_parseEscape esc out inside).bind fun out after _ inside _ => ?_
    exact .pure inside (by omega)
  · refine (Settles.require inside).bind fun _ after _ inside _ => ?_
    exact .pure inside (by omega)

theorem moves_parseString (inside : pos ≤ input.length) : Moves parseString input pos := by
  refine (settles_skipWhitespace inside).bind fun _ here _ inside _ => ?_
  refine (Settles.nextIs _ inside).check fun quoted after _ _ facts yes => ?_
  obtain ⟨rfl, more⟩ := facts
  refine (Settles.advance (more yes)).bind fun _ here _ inside moved => ?_
  refine (Settles.loop (fun out here _ inside => ?_) inside).imp fun _ after _ _ _ => by omega
  exact (moves_parseStringByte out inside).imp fun _ _ _ _ moved _ => moved

theorem settles_parseUnsigned (inside : pos ≤ input.length) :
    Settles parseUnsigned input pos fun _ _ => True := by
  refine (settles_skipWhitespace inside).bind fun _ here _ inside _ => ?_
  refine (Settles.nextIs isDigit inside).check fun _ here _ inside _ _ => ?_
  refine Settles.bind (Settles.loop (fun value here _ inside => ?_) inside)
    fun value here _ inside _ => ?_
  · refine (Settles.nextIs isDigit inside).bind fun digit after _ _ facts => ?_
    obtain ⟨rfl, more⟩ := facts
    cases digit with
    | false => exact .pure inside fun left => by cases left
    | true =>
      refine Settles.bind (Settles.peekAt (more rfl)) fun b after _ inside same => ?_
      subst same
      refine (Settles.require inside).bind fun _ after _ _ facts => ?_
      obtain ⟨rfl, -⟩ := facts
      refine (Settles.advance (more rfl)).bind fun _ after _ inside moved => ?_
      exact .pure inside fun _ => by omega
  · refine (Settles.nextIs isNumberTail inside).check fun _ after _ inside _ _ => ?_
    exact .pure inside trivial

/-! ### Arrays and objects -/

theorem settles_items (close : UInt8) {item : σ → Scan σ} (state : σ)
    (moves : ∀ state here, pos ≤ here → here ≤ input.length → Moves (item state) input here)
    (inside : pos ≤ input.length) : Settles (items close item state) input pos fun _ _ => True := by
  refine .loop (fun state here later inside => ?_) inside
  refine (moves state here later inside).bind fun state after _ inside moved => ?_
  refine (settles_skipWhitespace inside).bind fun _ after _ inside _ => ?_
  refine (settles_consume close inside).bind fun closed after _ inside _ => ?_
  cases closed with
  | true => exact .pure inside fun left => by cases left
  | false =>
    refine Settles.check (settles_consume 44 inside) fun _ after _ inside _ _ => ?_
    exact .pure inside fun _ => by omega

theorem moves_member {field : Bytes → σ → Scan σ} {state : σ}
    (settles : ∀ key here, pos < here → here ≤ input.length →
      Settles (field key state) input here fun _ _ => True)
    (inside : pos ≤ input.length) : Moves (member field state) input pos := by
  refine (moves_parseString inside).bind fun key here _ inside moved => ?_
  refine (settles_consume 58 inside).check fun _ after _ inside _ _ => ?_
  exact (settles key after (by omega) inside).imp fun _ _ _ _ _ => by omega

theorem moves_openList (opening close : UInt8) (inside : pos ≤ input.length) :
    Moves (openList opening close) input pos := by
  refine (settles_consume opening inside).check fun _ here _ inside moves yes => ?_
  have moved := moves yes
  refine (settles_skipWhitespace inside).bind fun _ here _ inside _ => ?_
  exact (settles_consume close inside).imp fun _ _ _ _ _ => by omega

/-- A list that may be empty. -/
theorem moves_list (opening close : UInt8) {item : σ → Scan σ} (state : σ)
    (moves : ∀ state here, pos < here → here ≤ input.length → Moves (item state) input here)
    (inside : pos ≤ input.length) :
    Moves (do if ← openList opening close then return state else items close item state)
      input pos := by
  refine (moves_openList opening close inside).bind fun closed here _ inside moved => ?_
  cases closed with
  | true => exact .pure inside moved
  | false =>
    have all := settles_items close state (fun state later above => moves state later (by omega))
      inside
    exact all.imp fun _ _ _ _ _ => by omega

/-! ### Skipped values -/

variable {inner : Scan Unit}

theorem moves_skipArray
    (moves : ∀ later, pos < later → later ≤ input.length → Moves inner input later)
    (inside : pos ≤ input.length) : Moves (skipArray inner) input pos :=
  moves_list 91 93 () (fun _ => moves) inside

theorem moves_skipObject
    (moves : ∀ later, pos < later → later ≤ input.length → Moves inner input later)
    (inside : pos ≤ input.length) : Moves (skipObject inner) input pos := by
  refine moves_list 123 125 () (fun _ here above inside => ?_) inside
  refine moves_member (fun _ later above inside => ?_) inside
  exact (moves later (by omega) inside).imp fun _ _ _ _ _ => trivial

theorem settles_word (first : Bool) (word : Bytes) (inside : pos ≤ input.length) :
    Settles (pure first <&&> lookingAt word) input pos fun there after =>
      after = pos ∧ (there = true → pos + word.length ≤ input.length) := by
  cases first with
  | true => exact Settles.lookingAt word inside
  | false => exact Settles.pure (a := false) inside ⟨rfl, fun no => by cases no⟩

theorem moves_word (first : Bool) (word : Bytes) {other : Scan Unit} (nonempty : 0 < word.length)
    (moves : Moves other input pos) (inside : pos ≤ input.length) :
    Moves (do if ← (pure first <&&> lookingAt word) then advance word.length else other)
      input pos := by
  refine (settles_word first word inside).bind fun found here _ _ facts => ?_
  obtain ⟨rfl, room⟩ := facts
  cases found with
  | true => exact Settles.imp (Settles.advance (room rfl)) fun _ _ _ _ moved => by omega
  | false => exact moves

theorem moves_skipValueAt (ch : UInt8)
    (moves : ∀ later, pos < later → later ≤ input.length → Moves inner input later)
    (inside : pos < input.length) : Moves (skipValueAt inner ch) input pos := by
  have start := Nat.le_of_lt inside
  unfold skipValueAt
  split_ifs
  · exact (moves_parseString start).bind fun _ _ _ inside moved => .pure inside moved
  · exact moves_skipObject moves start
  · exact moves_skipArray moves start
  · refine moves_word (ch == 116) (ascii "true") (by decide) ?_ start
    refine moves_word (ch == 102) (ascii "false") (by decide) ?_ start
    refine moves_word (ch == 110) (ascii "null") (by decide) ?_ start
    refine (Settles.require start).bind fun _ here _ _ facts => ?_
    obtain ⟨rfl, -⟩ := facts
    refine (Settles.advance inside).bind fun _ after _ inside moved => ?_
    exact (Settles.skipWhile _ inside).imp fun _ _ _ _ _ => by omega

theorem moves_skipValue (inside : pos ≤ input.length) : Moves skipValue input pos := by
  refine .recurse (fun inner here inside moves => ?_) inside
  refine (settles_skipWhitespace inside).bind fun _ start _ inside _ => ?_
  refine (Settles.atEnd inside).check fun done after _ _ facts no => ?_
  obtain ⟨rfl, more⟩ := facts
  refine (Settles.peekAt (more no)).bind fun ch after _ _ same => ?_
  subst same
  refine (moves_skipValueAt ch (fun later above => ?_) (more no)).imp fun _ _ _ _ _ => by omega
  exact moves later (by omega)

/-! ### Scenarios -/

theorem settles_scenarioField (key : Bytes) (state : ScenarioFields) (inside : pos ≤ input.length) :
    Settles (scenarioField key state) input pos fun _ _ => True := by
  unfold scenarioField
  split_ifs
  · exact (moves_parseString inside).bind fun _ _ _ inside _ => .pure inside trivial
  · exact (settles_parseUnsigned inside).bind fun _ _ _ inside _ => .pure inside trivial
  · exact (moves_skipValue inside).bind fun _ _ _ inside _ => .pure inside trivial

theorem settles_members {field : Bytes → σ → Scan σ} (state : σ)
    (settles : ∀ key state here, here ≤ input.length →
      Settles (field key state) input here fun _ _ => True)
    (inside : pos ≤ input.length) :
    Settles (items 125 (member field) state) input pos fun _ _ => True := by
  refine settles_items 125 state (fun state here _ inside => ?_) inside
  exact moves_member (fun key later _ => settles key state later) inside

theorem moves_parseScenarioObject (defaultRequests : Nat) (scenarios : List NamedScenario)
    (inside : pos ≤ input.length) :
    Moves (parseScenarioObject defaultRequests scenarios) input pos := by
  refine (moves_openList 123 125 inside).check fun _ here _ inside moved _ => ?_
  have members := settles_members ⟨false, defaultRequests, []⟩
    (fun key state _ => settles_scenarioField key state) inside
  refine members.bind fun state here _ inside _ => ?_
  refine (Settles.require inside).bind fun _ here _ inside _ => ?_
  exact .pure inside (by omega)

theorem settles_parseScenarioArray (defaultRequests : Nat) (scenarios : List NamedScenario)
    (inside : pos ≤ input.length) :
    Settles (parseScenarioArray defaultRequests scenarios) input pos fun _ _ => True := by
  have list := moves_list 91 93 scenarios (fun scenarios here _ inside =>
    moves_parseScenarioObject defaultRequests scenarios inside) inside
  exact list.imp fun _ _ _ _ _ => trivial

theorem settles_matrixField (defaultRequests : Nat) (key : Bytes) (state : MatrixFields)
    (inside : pos ≤ input.length) :
    Settles (matrixField defaultRequests key state) input pos fun _ _ => True := by
  unfold matrixField
  split_ifs
  · refine (Settles.require inside).bind fun _ here _ inside _ => ?_
    refine (settles_parseScenarioArray defaultRequests _ inside).bind fun _ here _ inside _ => ?_
    exact .pure inside trivial
  · exact (moves_skipValue inside).bind fun _ _ _ inside _ => .pure inside trivial

theorem settles_atEndOfText (inside : pos ≤ input.length) :
    Settles atEndOfText input pos fun _ _ => True := by
  refine (settles_skipWhitespace inside).bind fun _ here _ inside _ => ?_
  exact (Settles.atEnd inside).imp fun _ _ _ _ _ => trivial

theorem settles_parseScenarioMatrix (defaultRequests : Nat) (inside : pos ≤ input.length) :
    Settles (parseScenarioMatrix defaultRequests) input pos fun _ _ => True := by
  refine (moves_openList 123 125 inside).check fun _ here _ inside _ _ => ?_
  have members := settles_members ⟨false, []⟩
    (fun key state _ => settles_matrixField defaultRequests key state) inside
  refine members.bind fun state here _ inside _ => ?_
  refine (Settles.require inside).bind fun _ here _ inside _ => ?_
  refine (settles_atEndOfText inside).check fun _ here _ inside _ _ => ?_
  exact .pure inside trivial

end DistributedCache.Bench.JsonReader

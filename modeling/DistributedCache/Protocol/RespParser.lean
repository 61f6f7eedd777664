import DistributedCache.Bytes
import DistributedCache.Lib.Decimal

/-! The parser of RESP arrays of bulk strings.  Its arithmetic on `size_t` and its calls of `substr`
are checked here, so that a run that underflows or that reads out of range is visible. -/

namespace DistributedCache.Protocol

open Lib

structure RESPCommand where
  name : Bytes
  args : List Bytes
deriving DecidableEq, Repr

structure RESPParseResult where
  command : RESPCommand
  bytesConsumed : Nat
deriving DecidableEq, Repr

/-- The result that `ParseRESP` starts with and returns when it rejects the frame. -/
def RESPParseResult.empty : RESPParseResult := ⟨⟨[], []⟩, 0⟩

/-- Why the parser stops early: it rejects the frame, a subtraction of `size_t` values goes below
zero, or `substr` starts after the end of its text. -/
inductive Exit
  | rejected
  | underflow
  | outOfRange
deriving DecidableEq, Repr

/-- `if (!p) return result;`. -/
def require (p : Prop) [Decidable p] : Except Exit Unit :=
  if p then .ok () else .error .rejected

/-- `a - b` on `size_t`. -/
def sub (a b : Nat) : Except Exit Nat := if b ≤ a then .ok (a - b) else .error .underflow

/-- `text.substr(pos)`. -/
def substrFrom (text : Bytes) (pos : Nat) : Except Exit Bytes :=
  if pos ≤ text.length then .ok (text.drop pos) else .error .outOfRange

/-- `text.substr(pos, count)`. -/
def substr (text : Bytes) (pos count : Nat) : Except Exit Bytes :=
  if pos ≤ text.length then .ok ((text.drop pos).take count) else .error .outOfRange

/-- The position of the first `"\r\n"`. -/
def findCrlf : Bytes → Option Nat
  | [] => none
  | b :: rest => if (b :: rest).take 2 = crlf then some 0 else (findCrlf rest).map (· + 1)

/-- `frame.find("\r\n", offset)`. -/
def findCrlfFrom (frame : Bytes) (offset : Nat) : Option Nat :=
  (findCrlf (frame.drop offset)).map (offset + ·)

/-- `ReadLine`: the line and the offset after it. -/
def readLine (frame : Bytes) (offset : Nat) : Except Exit (Bytes × Nat) :=
  match findCrlfFrom frame offset with
  | none => .error .rejected
  | some pos => do
    let length ← sub pos offset
    let line ← substr frame offset length
    return (line, pos + 2)

def parseNumber (text : Bytes) : Except Exit Int :=
  if text = [] then .error .rejected
  else match fromChars text with
    | .ok value length => if length = text.length then .ok value else .error .rejected
    | _ => .error .rejected

def kMaxArrayElements : Int := 1024

def kMaxBulkLength : Int := 1024 * 1024

/-- The header line of the array or of a bulk string: its marker and its number. -/
def readHeader (frame : Bytes) (offset : Nat) (marker : UInt8) : Except Exit (Int × Nat) := do
  let (line, offset) ← readLine frame offset
  require (line.head? = some marker)
  let text ← substrFrom line 1
  let number ← parseNumber text
  return (number, offset)

/-- The body of the loop over the bulk strings. -/
def readBulk (frame : Bytes) (offset : Nat) : Except Exit (Bytes × Nat) := do
  let (length, offset) ← readHeader frame offset 36
  require (0 ≤ length ∧ length ≤ kMaxBulkLength)
  require (length.toNat ≤ 2 ^ 64 - 1)
  let remaining ← sub frame.length offset
  let lengthSize := length.toNat
  require (2 ≤ remaining)
  let room ← sub remaining 2
  require (lengthSize ≤ room)
  let part ← substr frame offset lengthSize
  let offset := offset + lengthSize
  let tail ← substr frame offset 2
  require (tail = crlf)
  return (part, offset + 2)

/-- The loop over the bulk strings, with `count - i` rounds to go. -/
def readBulks (frame : Bytes) : Nat → Nat → Except Exit (List Bytes × Nat)
  | 0, offset => return ([], offset)
  | rounds + 1, offset => do
    let (part, offset) ← readBulk frame offset
    let (parts, offset) ← readBulks frame rounds offset
    return (part :: parts, offset)

/-- The command of the parsed parts. -/
def commandOf : List Bytes → RESPCommand
  | [] => ⟨[], []⟩
  | name :: args => ⟨name, args⟩

/-- `ParseRESP` up to its early returns. -/
def parseFrame (frame : Bytes) : Except Exit RESPParseResult := do
  let (count, offset) ← readHeader frame 0 42
  require (0 < count ∧ count ≤ kMaxArrayElements)
  let (parts, offset) ← readBulks frame count.toNat offset
  return ⟨commandOf parts, offset⟩

def parseRESP (frame : Bytes) : Except Exit RESPParseResult :=
  match parseFrame frame with
  | .error .rejected => .ok .empty
  | outcome => outcome

/-! ### The grammar of a frame -/

/-- The bytes of a bulk string with its header: `'$' l CRLF b CRLF`. -/
def Group (bytes part : Bytes) : Prop :=
  ∃ header, Numeral header part.length ∧ (part.length : Int) ≤ 1048576 ∧
    bytes = 36 :: header ++ crlf ++ part ++ crlf

inductive Groups : Bytes → List Bytes → Prop
  | nil : Groups [] []
  | cons {bytes rest part parts} : Group bytes part → Groups rest parts →
      Groups (bytes ++ rest) (part :: parts)

/-- The bytes of an array: `'*' c CRLF` and as many bulk strings as `c` says. -/
def Frame (bytes : Bytes) (parts : List Bytes) : Prop :=
  ∃ header groups, Numeral header parts.length ∧ 1 ≤ parts.length ∧ parts.length ≤ 1024 ∧
    Groups groups parts ∧ bytes = 42 :: header ++ crlf ++ groups

/-! ### The primitives on arguments in range -/

theorem ok_bind {α β : Type} (a : α) (f : α → Except Exit β) : (Except.ok a >>= f) = f a := rfl

theorem require_ok {p : Prop} [Decidable p] (h : p) : require p = .ok () := if_pos h

theorem sub_ok {a b : Nat} (h : b ≤ a) : sub a b = .ok (a - b) := if_pos h

theorem substr_ok {text : Bytes} {pos count : Nat} (h : pos ≤ text.length) :
    substr text pos count = .ok ((text.drop pos).take count) := if_pos h

/-- `substr` of the part between `pre` and `rest`. -/
theorem substr_append (pre part rest : Bytes) :
    substr (pre ++ part ++ rest) pre.length part.length = .ok part := by
  rw [substr_ok (by simp), List.append_assoc, List.drop_left, List.take_left]

/-! ### Soundness -/

/-- A computation of the parser that neither underflows nor reads out of range, and whose result
satisfies `P` if it has one. -/
def Yields {α : Type} (x : Except Exit α) (P : α → Prop) : Prop :=
  match x with
  | .ok a => P a
  | .error e => e = .rejected

theorem Yields.bind {α β : Type} {x : Except Exit α} {f : α → Except Exit β} {P : α → Prop}
    {Q : β → Prop} (first : Yields x P) (next : ∀ a, P a → Yields (f a) Q) :
    Yields (x >>= f) Q := by
  cases x with
  | error e => exact first
  | ok a => exact next a first

theorem Yields.require {p : Prop} [Decidable p] : Yields (require p) fun _ => p := by
  unfold Protocol.require
  split
  · assumption
  · rfl

theorem findCrlf_sound {text : Bytes} {n : Nat} (found : findCrlf text = some n) :
    ∃ rest, text = text.take n ++ crlf ++ rest := by
  induction text generalizing n with
  | nil => simp [findCrlf] at found
  | cons b text ih =>
    unfold findCrlf at found
    split at found
    · rename_i here
      cases found
      refine ⟨(b :: text).drop 2, ?_⟩
      rw [← here, List.take_zero, List.nil_append, List.take_append_drop]
    · obtain ⟨m, later, rfl⟩ := Option.map_eq_some_iff.mp found
      obtain ⟨rest, split⟩ := ih later
      refine ⟨rest, ?_⟩
      rw [List.take_succ_cons, List.cons_append, List.cons_append, ← split]

theorem readLine_yields (pre text : Bytes) :
    Yields (readLine (pre ++ text) pre.length) fun r =>
      ∃ rest, text = r.1 ++ crlf ++ rest ∧ r.2 = (pre ++ r.1 ++ crlf).length := by
  unfold readLine findCrlfFrom
  rw [List.drop_left]
  cases found : findCrlf text with
  | none => rfl
  | some n =>
    obtain ⟨rest, split⟩ := findCrlf_sound found
    dsimp only [Option.map_some]
    rw [sub_ok (Nat.le_add_right _ _), ok_bind, substr_ok (by simp), ok_bind]
    have short : n ≤ text.length := by
      have := congrArg List.length split
      simp [crlf] at this
      omega
    refine ⟨rest, ?_, ?_⟩
    · simpa using split
    · simp [crlf, short]
      omega

theorem parseNumber_yields (text : Bytes) : Yields (parseNumber text) (Numeral text) := by
  unfold parseNumber
  split
  · rfl
  · split
    · rename_i value length read
      split
      · rename_i whole
        subst whole
        exact fromChars_eq_ok.mp read
      · rfl
    · rfl

theorem readHeader_yields (pre text : Bytes) (marker : UInt8) :
    Yields (readHeader (pre ++ text) pre.length marker) fun r =>
      ∃ header rest, text = marker :: header ++ crlf ++ rest ∧ Numeral header r.1 ∧
        r.2 = (pre ++ marker :: header ++ crlf).length := by
  refine (readLine_yields pre text).bind ?_
  rintro ⟨line, next⟩ ⟨rest, split, after⟩
  dsimp only at split after
  subst split after
  refine Yields.require.bind ?_
  intro _ marked
  obtain ⟨header, rfl⟩ : ∃ header, line = marker :: header := by
    cases line <;> simp_all
  rw [show substrFrom (marker :: header) 1 = .ok header from rfl, ok_bind]
  refine (parseNumber_yields _).bind ?_
  intro number numeral
  exact ⟨_, rest, rfl, numeral, rfl⟩

theorem readBulk_yields (pre text : Bytes) :
    Yields (readBulk (pre ++ text) pre.length) fun r =>
      ∃ bytes rest, text = bytes ++ rest ∧ Group bytes r.1 ∧ r.2 = (pre ++ bytes).length := by
  refine (readHeader_yields pre text 36).bind ?_
  rintro ⟨length, next⟩ ⟨header, rest, split, numeral, after⟩
  dsimp only at numeral after
  subst split after
  refine Yields.require.bind ?_
  rintro _ ⟨nonneg, bounded⟩
  refine Yields.require.bind ?_
  intro _ _
  have assoc : pre ++ (36 :: header ++ crlf ++ rest) = (pre ++ 36 :: header ++ crlf) ++ rest := by
    simp
  rw [assoc]
  generalize header_eq : pre ++ 36 :: header ++ crlf = before
  rw [sub_ok (by simp), ok_bind, List.length_append, Nat.add_sub_cancel_left]
  refine Yields.require.bind ?_
  intro _ two
  rw [sub_ok two, ok_bind]
  refine Yields.require.bind ?_
  intro _ room
  obtain ⟨part, more, rfl, sized⟩ : ∃ part more, rest = part ++ more ∧ part.length = length.toNat :=
    ⟨rest.take length.toNat, rest.drop length.toNat, by simp, by simp; omega⟩
  rw [← List.append_assoc, ← sized, substr_append, ok_bind, ← List.length_append]
  dsimp only
  rw [substr_ok (by simp), List.drop_left, ok_bind]
  refine Yields.require.bind ?_
  intro _ ends
  refine ⟨36 :: header ++ crlf ++ part ++ crlf, more.drop 2, ?_, ⟨header, ?_, ?_, rfl⟩, ?_⟩
  · rw [← ends]
    simp
  · rwa [sized, Int.toNat_of_nonneg nonneg]
  · rwa [sized, Int.toNat_of_nonneg nonneg]
  · rw [← header_eq]
    simp [crlf, Nat.add_assoc]

theorem readBulks_yields (rounds : Nat) (pre text : Bytes) :
    Yields (readBulks (pre ++ text) rounds pre.length) fun r =>
      r.1.length = rounds ∧ ∃ bytes rest, text = bytes ++ rest ∧ Groups bytes r.1 ∧
        r.2 = (pre ++ bytes).length := by
  induction rounds generalizing pre text with
  | zero => exact ⟨rfl, [], text, rfl, .nil, by simp⟩
  | succ rounds ih =>
    refine (readBulk_yields pre text).bind ?_
    rintro ⟨part, next⟩ ⟨bytes, rest, split, group, after⟩
    dsimp only at group after
    subst split after
    rw [← List.append_assoc]
    refine (ih (pre ++ bytes) rest).bind ?_
    rintro ⟨parts, last⟩ ⟨count, more, tail, split, groups, after⟩
    dsimp only at count groups after
    subst split after
    exact ⟨by simp [count], bytes ++ more, tail, by simp, .cons group groups, by simp⟩

theorem parseFrame_yields (frame : Bytes) :
    Yields (parseFrame frame) fun r => ∃ bytes rest parts, frame = bytes ++ rest ∧
      Frame bytes parts ∧ r = ⟨commandOf parts, bytes.length⟩ := by
  refine (readHeader_yields [] frame 42).bind ?_
  rintro ⟨count, next⟩ ⟨header, rest, split, numeral, after⟩
  dsimp only at numeral after
  subst split after
  refine Yields.require.bind ?_
  rintro _ ⟨positive, bounded⟩
  refine (readBulks_yields count.toNat (42 :: header ++ crlf) rest).bind ?_
  rintro ⟨parts, last⟩ ⟨exact_count, groups, tail, split, valid, after⟩
  dsimp only at exact_count valid after
  subst split after
  have counted : (parts.length : Int) = count := by omega
  rw [kMaxArrayElements] at bounded
  refine ⟨_, tail, parts, (List.append_assoc _ _ _).symm, ?_, rfl⟩
  exact ⟨header, groups, counted ▸ numeral, by omega, by omega, valid, rfl⟩

/-! ### Completeness -/

theorem findCrlf_append {line : Bytes} (rest : Bytes) (clean : 13 ∉ line) :
    findCrlf (line ++ crlf ++ rest) = some line.length := by
  induction line with
  | nil => simp [findCrlf, crlf]
  | cons b line ih =>
    simp only [List.mem_cons, not_or] at clean
    have differs : ((b :: line) ++ crlf ++ rest).take 2 ≠ crlf := by
      intro same
      simp only [List.cons_append, List.take_succ_cons, crlf, List.cons.injEq] at same
      exact clean.1 same.1.symm
    rw [List.cons_append, List.cons_append, findCrlf, if_neg (by simpa using differs), ih clean.2]
    rfl

theorem parseNumber_of_numeral {text : Bytes} {value : Int} (numeral : Numeral text value) :
    parseNumber text = .ok value := by
  have nonempty : text ≠ [] := by
    rintro rfl
    obtain ⟨digits, nonempty, -, ⟨rfl, -⟩ | ⟨same, -⟩, -⟩ := numeral
    · exact nonempty rfl
    · cases same
  simp [parseNumber, nonempty, fromChars_eq_ok.mpr numeral]

theorem readHeader_append {header : Bytes} {value : Int} {marker : UInt8} (pre rest : Bytes)
    (numeral : Numeral header value) (marked : marker ≠ 13) :
    readHeader (pre ++ (marker :: header ++ crlf ++ rest)) pre.length marker =
      .ok (value, (pre ++ marker :: header ++ crlf).length) := by
  have clean : 13 ∉ marker :: header := by
    simp only [List.mem_cons, not_or]
    exact ⟨marked.symm, numeral.not_mem (by decide)⟩
  have line : readLine (pre ++ (marker :: header ++ crlf ++ rest)) pre.length =
      .ok (marker :: header, (pre ++ marker :: header ++ crlf).length) := by
    rw [readLine, findCrlfFrom, List.drop_left, findCrlf_append rest clean]
    dsimp only [Option.map_some]
    rw [sub_ok (Nat.le_add_right _ _), ok_bind, Nat.add_sub_cancel_left, List.append_assoc _ crlf,
      ← List.append_assoc pre, substr_append, ok_bind]
    simp [crlf]
    rfl
  rw [readHeader, line, ok_bind]
  dsimp only
  rw [require_ok List.head?_cons, ok_bind,
    show substrFrom (marker :: header) 1 = .ok header from rfl, ok_bind,
    parseNumber_of_numeral numeral, ok_bind]
  rfl

theorem readBulk_append {bytes part : Bytes} (pre rest : Bytes) (group : Group bytes part) :
    readBulk (pre ++ (bytes ++ rest)) pre.length = .ok (part, (pre ++ bytes).length) := by
  obtain ⟨header, numeral, bounded, rfl⟩ := group
  have split : pre ++ (36 :: header ++ crlf ++ part ++ crlf ++ rest) =
      pre ++ (36 :: header ++ crlf ++ (part ++ crlf ++ rest)) := by
    simp
  rw [readBulk, split, readHeader_append pre _ numeral (by decide), ok_bind]
  dsimp only
  have assoc : pre ++ (36 :: header ++ crlf ++ (part ++ crlf ++ rest)) =
      (pre ++ 36 :: header ++ crlf) ++ part ++ (crlf ++ rest) := by
    simp
  rw [assoc]
  generalize header_eq : pre ++ 36 :: header ++ crlf = before
  rw [require_ok ⟨by omega, bounded⟩, ok_bind, require_ok (by omega), ok_bind,
    sub_ok (by simp), ok_bind, require_ok (by simp [crlf]; omega), ok_bind,
    sub_ok (by simp [crlf]; omega), ok_bind, require_ok (by simp [crlf]; omega), ok_bind,
    Int.toNat_natCast, substr_append, ok_bind, ← List.length_append, ← List.append_assoc]
  rw [show 2 = crlf.length from rfl, substr_append, ok_bind, require_ok rfl, ok_bind, ← header_eq]
  simp [Nat.add_assoc, Nat.add_comm 1]
  rfl

theorem readBulks_append {bytes : Bytes} {parts : List Bytes} (pre rest : Bytes)
    (groups : Groups bytes parts) :
    readBulks (pre ++ (bytes ++ rest)) parts.length pre.length =
      .ok (parts, (pre ++ bytes).length) := by
  induction groups generalizing pre with
  | nil => simp [readBulks]; rfl
  | @cons bytes more part parts group groups ih =>
    rw [List.length_cons, readBulks, List.append_assoc, readBulk_append pre _ group, ok_bind]
    dsimp only
    rw [← List.append_assoc pre, ih, ok_bind, List.append_assoc]
    rfl

theorem parseFrame_append {bytes : Bytes} {parts : List Bytes} (rest : Bytes)
    (frame : Frame bytes parts) :
    parseFrame (bytes ++ rest) = .ok ⟨commandOf parts, bytes.length⟩ := by
  obtain ⟨header, groups, numeral, positive, bounded, valid, rfl⟩ := frame
  have opened := readHeader_append [] (groups ++ rest) numeral (show (42 : UInt8) ≠ 13 by decide)
  rw [List.nil_append, ← List.append_assoc] at opened
  have read := readBulks_append (42 :: header ++ crlf) rest valid
  rw [← List.append_assoc] at read
  rw [parseFrame, show 0 = ([] : Bytes).length from rfl, opened, ok_bind]
  dsimp only
  rw [require_ok ⟨by omega, by rw [kMaxArrayElements]; omega⟩, ok_bind, Int.toNat_natCast,
    List.nil_append, read, ok_bind]
  rfl

/-! ### The parser against the grammar -/

theorem Frame.parts_ne_nil {bytes : Bytes} {parts : List Bytes} (frame : Frame bytes parts) :
    parts ≠ [] := by
  obtain ⟨-, -, -, positive, -⟩ := frame
  exact List.ne_nil_of_length_pos positive

theorem Frame.length_pos {bytes : Bytes} {parts : List Bytes} (frame : Frame bytes parts) :
    0 < bytes.length := by
  obtain ⟨header, groups, -, -, -, -, rfl⟩ := frame
  simp

theorem commandOf_injective {parts others : List Bytes} (hp : parts ≠ []) (ho : others ≠ [])
    (same : commandOf parts = commandOf others) : parts = others := by
  cases parts with
  | nil => exact absurd rfl hp
  | cons name args =>
    cases others with
    | nil => exact absurd rfl ho
    | cons name' args' => simpa [commandOf] using same

/-- The parser reads a frame whatever bytes follow it. -/
theorem parseRESP_append {bytes : Bytes} {parts : List Bytes} (rest : Bytes)
    (frame : Frame bytes parts) :
    parseRESP (bytes ++ rest) = .ok ⟨commandOf parts, bytes.length⟩ := by
  rw [parseRESP, parseFrame_append rest frame]

theorem parseRESP_cases (text : Bytes) :
    (∃ bytes rest parts, text = bytes ++ rest ∧ Frame bytes parts) ∨
      (parseRESP text = .ok .empty ∧ ∀ bytes rest parts, text = bytes ++ rest →
        ¬Frame bytes parts) := by
  have sound := parseFrame_yields text
  unfold parseRESP
  cases parsed : parseFrame text with
  | error e =>
    rw [parsed] at sound
    cases sound
    refine .inr ⟨rfl, ?_⟩
    rintro bytes rest parts rfl frame
    rw [parseFrame_append rest frame] at parsed
    cases parsed
  | ok result =>
    rw [parsed] at sound
    obtain ⟨bytes, rest, parts, split, frame, -⟩ := sound
    exact .inl ⟨bytes, rest, parts, split, frame⟩

theorem parseRESP_consumed_le {text : Bytes} {result : RESPParseResult}
    (parsed : parseRESP text = .ok result) : result.bytesConsumed ≤ text.length := by
  rcases parseRESP_cases text with ⟨bytes, rest, parts, rfl, frame⟩ | ⟨rejects, -⟩
  · rw [parseRESP_append rest frame] at parsed
    cases parsed
    simp
  · rw [rejects] at parsed
    cases parsed
    exact Nat.zero_le _

/-- At most one frame stands at the head of a text. -/
theorem Frame.unique {bytes bytes' rest rest' : Bytes} {parts parts' : List Bytes}
    (frame : Frame bytes parts) (frame' : Frame bytes' parts')
    (same : bytes ++ rest = bytes' ++ rest') : bytes = bytes' ∧ parts = parts' ∧ rest = rest' := by
  have parsed := parseFrame_append rest frame
  rw [same, parseFrame_append rest' frame'] at parsed
  simp only [Except.ok.injEq, RESPParseResult.mk.injEq] at parsed
  obtain ⟨head, tail⟩ := List.append_inj same parsed.2.symm
  exact ⟨head, commandOf_injective frame.parts_ne_nil frame'.parts_ne_nil parsed.1.symm, tail⟩

/-- A text that the parser accepts as a whole is a frame. -/
theorem frame_of_parseRESP {bytes : Bytes} {cmd : RESPCommand} (nonempty : bytes ≠ [])
    (accepted : parseRESP bytes = .ok ⟨cmd, bytes.length⟩) :
    Frame bytes (cmd.name :: cmd.args) := by
  rcases parseRESP_cases bytes with ⟨head, rest, parts, rfl, frame⟩ | ⟨rejects, -⟩
  · rw [parseRESP_append rest frame] at accepted
    simp only [Except.ok.injEq, RESPParseResult.mk.injEq, List.length_append] at accepted
    obtain ⟨rfl, size⟩ := accepted
    obtain rfl : rest = [] := List.eq_nil_of_length_eq_zero (by omega)
    match parts, frame with
    | [], frame => exact absurd rfl frame.parts_ne_nil
    | name :: args, frame => simpa [commandOf] using frame
  · rw [rejects] at accepted
    simp only [RESPParseResult.empty, Except.ok.injEq, RESPParseResult.mk.injEq] at accepted
    exact absurd (List.eq_nil_of_length_eq_zero accepted.2.symm) nonempty

/-- `ParseRESP` accepts exactly the frames of the grammar, reads nothing behind them, and on no
input underflows or reads out of range. -/
theorem parseRESP_grammar (frame : Bytes) :
    ∃ result, parseRESP frame = .ok result ∧
      (∀ n, 0 < n → (result.bytesConsumed = n ↔
        n ≤ frame.length ∧ ∃ parts, Frame (frame.take n) parts)) ∧
      (∀ n parts, n ≤ frame.length → Frame (frame.take n) parts →
        (∃ name args, parts = name :: args ∧ result.command = ⟨name, args⟩) ∧
        ∀ rest, parseRESP (frame.take n ++ rest) = .ok result) ∧
      ((∀ n parts, n ≤ frame.length → ¬Frame (frame.take n) parts) →
        result = ⟨⟨[], []⟩, 0⟩) := by
  rcases parseRESP_cases frame with ⟨bytes, rest, parts, rfl, valid⟩ | ⟨rejects, noFrame⟩
  · refine ⟨_, parseRESP_append rest valid, ?_, ?_, ?_⟩
    · intro n _
      constructor
      · rintro rfl
        exact ⟨by simp, parts, by simpa using valid⟩
      · rintro ⟨inside, others, other⟩
        have heads := (other.unique valid (List.take_append_drop n (bytes ++ rest))).1
        show bytes.length = n
        rw [← heads, List.length_take, Nat.min_eq_left inside]
    · intro n others inside other
      obtain ⟨heads, rfl, -⟩ := other.unique valid (List.take_append_drop n (bytes ++ rest))
      constructor
      · cases others with
        | nil => exact absurd rfl valid.parts_ne_nil
        | cons name args => exact ⟨name, args, rfl, rfl⟩
      · intro more
        rw [heads, parseRESP_append more valid]
    · intro absent
      exact absurd (by simpa using valid) (absent bytes.length parts (by simp))
  · have absent : ∀ n parts, ¬Frame (frame.take n) parts := fun n parts =>
      noFrame _ _ parts (List.take_append_drop n frame).symm
    refine ⟨_, rejects, ?_, ?_, fun _ => rfl⟩
    · intro n positive
      constructor
      · rintro rfl
        exact absurd positive (by decide)
      · rintro ⟨-, parts, valid⟩
        exact absurd valid (absent n parts)
    · intro n parts _ valid
      exact absurd valid (absent n parts)

end DistributedCache.Protocol

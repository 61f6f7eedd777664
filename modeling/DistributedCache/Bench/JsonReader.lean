import DistributedCache.Bench.ScenarioRequests
import DistributedCache.Bytes
import DistributedCache.Lib.Decimal
import DistributedCache.Lib.Json
import DistributedCache.Lib.Scan

/-! The JSON reader of the benchmark and the escapes that it writes.  A `false` that all callers of
a function pass on is a rejection.  What the writer escapes, the reader reads back. -/

namespace DistributedCache.Bench

open Lib Lib.Scan

/-- `kHex`. -/
def kHex : Bytes := ascii "0123456789abcdef"

/-- The body of the loop of `JsonEscapeString`. -/
def jsonEscapeByte (ch : UInt8) : Bytes :=
  match ch with
  | 34 => [92, 34]
  | 92 => [92, 92]
  | 8 => ascii "\\b"
  | 12 => ascii "\\f"
  | 10 => ascii "\\n"
  | 13 => ascii "\\r"
  | 9 => ascii "\\t"
  | ch =>
    if ch < 0x20 then
      ascii "\\u00" ++ [kHex.getD (ch >>> 4).toNat 0, kHex.getD (ch &&& 0x0F).toNat 0]
    else [ch]

def jsonEscapeString (input : Bytes) : Bytes := input.flatMap jsonEscapeByte

/-- A scenario with its name, which the distribution of the requests does not read. -/
structure NamedScenario extends ScenarioSpec where
  name : Bytes
deriving DecidableEq, Repr

/-- `std::isspace` in the locale of the program, which is the C locale. -/
def isSpace (b : UInt8) : Bool := b = 32 || (9 ≤ b && b ≤ 13)

namespace JsonReader

def skipWhitespace : Scan Unit := skipWhile isSpace

def consume (expected : UInt8) : Scan Bool := do
  skipWhitespace
  if ← nextIs (· = expected) then
    advance 1
    return true
  else return false

/-! ### Strings -/

/-- The bytes that `AppendUtf8` appends. -/
def utf8 (codepoint : Nat) : Option Bytes :=
  if codepoint ≤ 0x7F then some [UInt8.ofNat codepoint]
  else if codepoint ≤ 0x7FF then
    some [UInt8.ofNat (0xC0 ||| codepoint >>> 6), UInt8.ofNat (0x80 ||| codepoint &&& 0x3F)]
  else if codepoint ≤ 0xFFFF then
    some [UInt8.ofNat (0xE0 ||| codepoint >>> 12),
      UInt8.ofNat (0x80 ||| (codepoint >>> 6) &&& 0x3F), UInt8.ofNat (0x80 ||| codepoint &&& 0x3F)]
  else if codepoint ≤ 0x10FFFF then
    some [UInt8.ofNat (0xF0 ||| codepoint >>> 18),
      UInt8.ofNat (0x80 ||| (codepoint >>> 12) &&& 0x3F),
      UInt8.ofNat (0x80 ||| (codepoint >>> 6) &&& 0x3F), UInt8.ofNat (0x80 ||| codepoint &&& 0x3F)]
  else none

def appendUtf8 (codepoint : Nat) (out : Bytes) : Scan Bytes :=
  match utf8 codepoint with
  | some bytes => pure (out ++ bytes)
  | none => reject

/-- The loop of `ParseHex4` with `n` digits to go.  Four digits fit in `uint32_t`. -/
def parseHexDigits : Nat → Nat → Scan Nat
  | 0, value => return value
  | n + 1, value => do
    let ch ← next
    let value := value <<< 4
    if 48 ≤ ch ∧ ch ≤ 57 then parseHexDigits n (value ||| (ch.toNat - 48))
    else if 97 ≤ ch ∧ ch ≤ 102 then parseHexDigits n (value ||| (10 + ch.toNat - 97))
    else if 65 ≤ ch ∧ ch ≤ 70 then parseHexDigits n (value ||| (10 + ch.toNat - 65))
    else reject

def parseHex4 : Scan Nat := do
  require ((← hasRoom 4) = true)
  parseHexDigits 4 0

def parseUnicodeEscape (out : Bytes) : Scan Bytes := do
  let codepoint ← parseHex4
  if 0xD800 ≤ codepoint ∧ codepoint ≤ 0xDBFF then
    require ((← hasRoom 6) = true)
    require ((← peekAt 0) = 92)
    require ((← peekAt 1) = 117)
    advance 2
    let low ← parseHex4
    require (¬(low < 0xDC00 ∨ low > 0xDFFF))
    appendUtf8 (0x10000 + (codepoint - 0xD800) <<< 10 + (low - 0xDC00)) out
  else if 0xDC00 ≤ codepoint ∧ codepoint ≤ 0xDFFF then reject
  else appendUtf8 codepoint out

/-- What the byte after a backslash makes of the string. -/
def parseEscape (esc : UInt8) (out : Bytes) : Scan Bytes :=
  match esc with
  | 34 | 92 | 47 => return out ++ [esc]
  | 98 => return out ++ [8]
  | 102 => return out ++ [12]
  | 110 => return out ++ [10]
  | 114 => return out ++ [13]
  | 116 => return out ++ [9]
  | 117 => parseUnicodeEscape out
  | _ => reject

/-- The body of the loop of `ParseString`. -/
def parseStringByte (out : Bytes) : Scan (Bytes ⊕ Bytes) := do
  require ((← atEnd) = false)
  let ch ← next
  if ch = 34 then return .inr out
  else if ch = 92 then
    require ((← atEnd) = false)
    let esc ← next
    return .inl (← parseEscape esc out)
  else
    require (¬ch < 0x20)
    return .inl (out ++ [ch])

def parseString : Scan Bytes := do
  skipWhitespace
  require ((← nextIs (· = 34)) = true)
  advance 1
  loop parseStringByte []

/-! ### Numbers, arrays and objects -/

/-- The bytes of a number after its digits. -/
def isNumberTail (b : UInt8) : Bool := b = 46 || b = 101 || b = 69 || b = 45 || b = 43

/-- The body of the loop of `ParseUnsigned`. -/
def parseUnsignedDigit (value : Nat) : Scan (Nat ⊕ Nat) := do
  if ← nextIs isDigit then
    let digit := (← peekAt 0).toNat - 48
    require (¬value > (2 ^ 64 - 1 - digit) / 10)
    advance 1
    return .inl (value * 10 + digit)
  else return .inr value

def parseUnsigned : Scan Nat := do
  skipWhitespace
  require ((← nextIs isDigit) = true)
  let value ← loop parseUnsignedDigit 0
  require ((← nextIs isNumberTail) = false)
  return value

/-- A round of the loop that the arrays and objects have in common: an item, and then a comma or
`close`. -/
def itemsRound {σ : Type} (close : UInt8) (item : σ → Scan σ) (state : σ) : Scan (σ ⊕ σ) := do
  let state ← item state
  skipWhitespace
  if ← consume close then return .inr state
  else
    require ((← consume 44) = true)
    return .inl state

def items {σ : Type} (close : UInt8) (item : σ → Scan σ) : σ → Scan σ :=
  loop (itemsRound close item)

/-- A member of an object: a key, a colon, and what `field` reads for the key. -/
def member {σ : Type} (field : Bytes → σ → Scan σ) (state : σ) : Scan σ := do
  let key ← parseString
  require ((← consume 58) = true)
  field key state

/-- The first lines that the arrays and objects have in common: `opening`, and whether `close`
follows it. -/
def openList (opening close : UInt8) : Scan Bool := do
  require ((← consume opening) = true)
  skipWhitespace
  consume close

def skipArray (skipValue : Scan Unit) : Scan Unit := do
  if ← openList 91 93 then return ()
  else items 93 (fun _ => skipValue) ()

def skipObject (skipValue : Scan Unit) : Scan Unit := do
  if ← openList 123 125 then return ()
  else items 125 (member fun _ _ => skipValue) ()

/-- What `SkipValue` does for the byte `ch` at the position. -/
def skipValueAt (skipValue : Scan Unit) (ch : UInt8) : Scan Unit := do
  if ch = 34 then discard parseString
  else if ch = 123 then skipObject skipValue
  else if ch = 91 then skipArray skipValue
  else if ← (pure (ch == 116) <&&> lookingAt (ascii "true")) then advance 4
  else if ← (pure (ch == 102) <&&> lookingAt (ascii "false")) then advance 5
  else if ← (pure (ch == 110) <&&> lookingAt (ascii "null")) then advance 4
  else
    require (ch = 45 ∨ isDigit ch = true)
    advance 1
    skipWhile fun b => isDigit b || isNumberTail b

/-- The body of `SkipValue`, which `SkipArray` and `SkipObject` call again. -/
def skipValueBody (skipValue : Scan Unit) : Scan Unit := do
  skipWhitespace
  require ((← atEnd) = false)
  let ch ← peekAt 0
  skipValueAt skipValue ch

def skipValue : Scan Unit := recurse skipValueBody

/-! ### Scenarios -/

/-- The variables of the loop of `ParseScenarioObject`. -/
structure ScenarioFields where
  foundName : Bool
  requests : Nat
  name : Bytes
deriving DecidableEq, Repr

def scenarioField (key : Bytes) (state : ScenarioFields) : Scan ScenarioFields := do
  if key = ascii "name" then
    let name ← parseString
    return { state with name, foundName := true }
  else if key = ascii "requests" then
    let requests ← parseUnsigned
    return { state with requests }
  else
    skipValue
    return state

def parseScenarioObject (defaultRequests : Nat) (scenarios : List NamedScenario) :
    Scan (List NamedScenario) := do
  require ((← openList 123 125) = false)
  let state ← items 125 (member scenarioField) ⟨false, defaultRequests, []⟩
  require (state.foundName = true)
  return scenarios ++ [{ name := state.name, requests := state.requests }]

def parseScenarioArray (defaultRequests : Nat) (scenarios : List NamedScenario) :
    Scan (List NamedScenario) := do
  if ← openList 91 93 then return scenarios
  else items 93 (parseScenarioObject defaultRequests) scenarios

/-- `AtEnd`. -/
def atEndOfText : Scan Bool := do
  skipWhitespace
  atEnd

/-- The variables of the loop of `ParseScenarioMatrix`. -/
structure MatrixFields where
  foundScenarios : Bool
  scenarios : List NamedScenario
deriving DecidableEq, Repr

def matrixField (defaultRequests : Nat) (key : Bytes) (state : MatrixFields) :
    Scan MatrixFields := do
  if key = ascii "scenarios" then
    require (state.foundScenarios = false)
    return ⟨true, ← parseScenarioArray defaultRequests state.scenarios⟩
  else
    skipValue
    return state

/-- `ParseScenarioMatrix` of a text at the position 0, into an empty vector. -/
def parseScenarioMatrix (defaultRequests : Nat) : Scan (List NamedScenario) := do
  require ((← openList 123 125) = false)
  let state ← items 125 (member (matrixField defaultRequests)) ⟨false, []⟩
  require (state.foundScenarios = true ∧ state.scenarios ≠ [])
  require ((← atEndOfText) = true)
  return state.scenarios

/-! ### Whitespace and punctuation -/

variable {blank rest : Bytes} {b : UInt8}

theorem isSpace_of_isWhitespace (white : Json.isWhitespace b = true) : isSpace b = true := by
  simp only [Json.isWhitespace, Bool.or_eq_true, decide_eq_true_eq] at white
  rcases white with ((rfl | rfl) | rfl) | rfl <;> decide

theorem reads_skipWhitespace (white : Json.Blank blank) (stops : rest.head?.any isSpace = false) :
    Reads skipWhitespace (blank ++ rest) () rest :=
  .skipWhile (fun b member => isSpace_of_isWhitespace (white b member)) stops

theorem reads_consume (white : Json.Blank blank) (visible : isSpace b = false) (rest : Bytes) :
    Reads (consume b) (blank ++ b :: rest) true rest := by
  have here := Reads.nextIs (· = b) (b :: rest)
  rw [List.head?_cons, Option.any_some, decide_eq_true rfl] at here
  refine (reads_skipWhitespace white (by simp [visible])).bind (here.bind ?_)
  exact (Reads.advance [b] rest).bind (.pure true rest)

theorem reads_consume_not (white : Json.Blank blank) (stops : rest.head?.any isSpace = false)
    (other : rest.head? ≠ some b) : Reads (consume b) (blank ++ rest) false rest := by
  have here := Reads.nextIs (· = b) rest
  have no : rest.head?.any (· = b) = false := by
    cases rest with
    | nil => rfl
    | cons c rest => simpa using other
  rw [no] at here
  exact (reads_skipWhitespace white stops).bind (here.bind (.pure false rest))

/-! ### Strings, as the grammar has them -/

/-- Bits that are set below a number add to it. -/
theorem shiftLeft_or {value d i : Nat} (small : d < 2 ^ i) :
    value <<< i ||| d = value * 2 ^ i + d := by
  rw [← Nat.shiftLeft_add_eq_or_of_lt small, Nat.shiftLeft_eq]

theorem hexDigit_lt {d : Nat} (digit : Json.hexDigit b = some d) : d < 16 := by
  unfold Json.hexDigit at digit
  simp only [UInt8.le_iff_toNat_le] at digit
  split_ifs at digit <;> simp at * <;> omega

theorem reads_parseHexDigits {value m : Nat} {text : Bytes} (hex : Json.Hex value text m)
    (rest : Bytes) : Reads (parseHexDigits text.length value) (text ++ rest) m rest := by
  induction hex with
  | nil => exact .pure _ rest
  | @cons n d m b text digit _ ih =>
    have small := hexDigit_lt digit
    refine (Reads.next b (text ++ rest)).bind ?_
    have shifted : 16 * n + d = n <<< 4 ||| d := by
      rw [shiftLeft_or (show d < 2 ^ 4 from small)]
      omega
    rw [shifted] at ih
    unfold Json.hexDigit at digit
    dsimp only
    split_ifs at digit with decimal lower upper
    · cases digit
      rw [if_pos decimal]
      exact ih
    · have value : d = 10 + b.toNat - 97 := by
        simp only [UInt8.le_iff_toNat_le] at lower
        simp at lower digit
        omega
      subst value
      rw [if_neg decimal, if_pos lower]
      exact ih
    · have value : d = 10 + b.toNat - 65 := by
        simp only [UInt8.le_iff_toNat_le] at upper
        simp at upper digit
        omega
      subst value
      rw [if_neg decimal, if_neg lower, if_pos upper]
      exact ih

theorem reads_parseHex4 {text : Bytes} {n : Nat} (hex : Json.Hex4 text n) (rest : Bytes) :
    Reads parseHex4 (text ++ rest) n rest := by
  obtain ⟨four, digits⟩ := hex
  have room := Reads.hasRoom 4 (text ++ rest)
  rw [decide_eq_true (by rw [List.length_append]; omega)] at room
  refine room.bind ((Reads.require rfl _).bind ?_)
  have reads := reads_parseHexDigits digits rest
  rwa [four] at reads

/-- A byte of an encoding: the mark of its kind above bits of the code point. -/
theorem mark_or {k i mark bits : Nat} (marked : k <<< i = mark) (small : bits < 2 ^ i) :
    mark ||| bits = bits + mark := by
  rw [← marked, shiftLeft_or small, Nat.shiftLeft_eq, Nat.add_comm]

theorem continuation (n : Nat) : 0x80 ||| n &&& 0x3F = n % 64 + 0x80 := by
  have low : n &&& 0x3F = n % 64 := Nat.and_two_pow_sub_one_eq_mod n 6
  rw [low]
  exact mark_or (show 2 <<< 6 = 0x80 from rfl) (Nat.mod_lt n (by decide))

/-- The bytes are those of the encoding of the character. -/
theorem utf8_eq (c : Char) : utf8 c.toNat = some (String.utf8EncodeChar c) := by
  have valid : c.toNat < 0x110000 := by
    rcases c.valid with low | ⟨-, high⟩
    · exact Nat.lt_trans low (by decide)
    · exact high
  have value : c.val.toNat = c.toNat := rfl
  unfold utf8 String.utf8EncodeChar
  simp only [value, continuation, Nat.shiftRight_eq_div_pow]
  generalize c.toNat = n at valid
  split
  · rfl
  · split
    · have lead : 0xC0 ||| n / 2 ^ 6 = n / 64 % 32 + 0xC0 := by
        rw [mark_or (show 6 <<< 5 = 0xC0 from rfl) (by omega)]
        omega
      rw [lead]
    · split
      · have lead : 0xE0 ||| n / 2 ^ 12 = n / 4096 % 16 + 0xE0 := by
          rw [mark_or (show 14 <<< 4 = 0xE0 from rfl) (by omega)]
          omega
        rw [lead]
      · have lead : 0xF0 ||| n / 2 ^ 18 = n / 262144 % 8 + 0xF0 := by
          rw [mark_or (show 30 <<< 3 = 0xF0 from rfl) (by omega)]
          omega
        rw [if_pos (by omega), lead]

theorem reads_appendUtf8 (c : Char) (out rest : Bytes) :
    Reads (appendUtf8 c.toNat out) rest (out ++ String.utf8EncodeChar c) rest := by
  rw [appendUtf8, utf8_eq]
  exact .pure _ rest

theorem reads_parseUnicodeEscape {digits : Bytes} {c : Char} (hex : Json.Hex4 digits c.toNat)
    (out rest : Bytes) :
    Reads (parseUnicodeEscape out) (digits ++ rest) (out ++ String.utf8EncodeChar c) rest := by
  have scalar : c.toNat < 0xD800 ∨ 0xDFFF < c.toNat := c.valid.imp id And.left
  refine (reads_parseHex4 hex rest).bind ?_
  rw [if_neg (by omega), if_neg (by omega)]
  exact reads_appendUtf8 c out rest

theorem reads_surrogates {high low : Bytes} {h l : Nat} {c : Char}
    (hexHigh : Json.Hex4 high (0xD800 + h)) (hexLow : Json.Hex4 low (0xDC00 + l))
    (smallHigh : h < 1024) (smallLow : l < 1024) (pair : c.toNat = 0x10000 + 1024 * h + l)
    (out rest : Bytes) :
    Reads (parseUnicodeEscape out) (high ++ 92 :: 117 :: (low ++ rest))
      (out ++ String.utf8EncodeChar c) rest := by
  have room := Reads.hasRoom 6 (92 :: 117 :: (low ++ rest))
  rw [decide_eq_true (by simp [hexLow.1])] at room
  refine (reads_parseHex4 hexHigh _).bind ?_
  rw [if_pos (by omega)]
  refine room.bind ((Reads.require rfl _).bind ?_)
  refine (Reads.peekAt rfl).bind ((Reads.require rfl _).bind ?_)
  refine (Reads.peekAt rfl).bind ((Reads.require rfl _).bind ?_)
  refine (Reads.advance [92, 117] (low ++ rest)).bind ((reads_parseHex4 hexLow rest).bind ?_)
  refine (Reads.require (by omega) rest).bind ?_
  have joined : 0x10000 + (0xD800 + h - 0xD800) <<< 10 + (0xDC00 + l - 0xDC00) = c.toNat := by
    rw [Nat.shiftLeft_eq]
    omega
  rw [joined]
  exact reads_appendUtf8 c out rest

theorem reads_parseStringByte_plain (low : 32 ≤ b) (notQuote : b ≠ 34) (notEscape : b ≠ 92)
    (out rest : Bytes) : Reads (parseStringByte out) (b :: rest) (.inl (out ++ [b])) rest := by
  refine (Reads.atEnd (b :: rest)).bind ((Reads.require rfl _).bind ?_)
  refine (Reads.next b rest).bind ?_
  rw [if_neg notQuote, if_neg notEscape]
  exact (Reads.require (UInt8.not_lt.mpr low) rest).bind (.pure _ rest)

theorem reads_parseStringByte_escape {e : UInt8} {text out out' : Bytes}
    (escape : Reads (parseEscape e out) text out' rest) :
    Reads (parseStringByte out) (92 :: e :: text) (.inl out') rest := by
  refine (Reads.atEnd (92 :: e :: text)).bind ((Reads.require rfl _).bind ?_)
  refine (Reads.next 92 (e :: text)).bind ?_
  rw [if_neg (by decide), if_pos rfl]
  refine (Reads.atEnd (e :: text)).bind ((Reads.require rfl _).bind ?_)
  exact (Reads.next e text).bind (escape.bind (.pure _ rest))

theorem reads_parseEscape_short {e : UInt8} (short : Json.shortEscape e = some b)
    (out rest : Bytes) : Reads (parseEscape e out) rest (out ++ [b]) rest := by
  unfold Json.shortEscape at short
  split at short <;> cases short <;> exact .pure _ rest

/-- The loop reads the text of a string up to the quote. -/
theorem rounds_parseString {text content : Bytes} (chars : Json.Chars text content)
    (out rest : Bytes) :
    Rounds parseStringByte out (text ++ 34 :: rest) (out ++ content) rest := by
  induction chars generalizing out with
  | nil =>
    rw [List.append_nil]
    refine .last ((Reads.atEnd (34 :: rest)).bind ((Reads.require rfl _).bind ?_))
    exact (Reads.next 34 rest).bind (.pure _ rest)
  | @plain b text content low notQuote notEscape _ ih =>
    have later := ih (out ++ [b])
    rw [List.append_assoc, List.singleton_append] at later
    exact .next (reads_parseStringByte_plain low notQuote notEscape out _) (by simp) later
  | @short e b text content short _ ih =>
    have later := ih (out ++ [b])
    rw [List.append_assoc, List.singleton_append] at later
    refine .next (reads_parseStringByte_escape (reads_parseEscape_short short out _)) ?_ later
    simp only [List.append_eq, List.length_append, List.length_cons]
    omega
  | @unicode digits text content c hex _ ih =>
    have later := ih (out ++ String.utf8EncodeChar c)
    have escape := reads_parseUnicodeEscape hex out (text ++ 34 :: rest)
    rw [← List.append_assoc] at escape
    rw [List.append_assoc] at later
    refine .next (reads_parseStringByte_escape escape) ?_ later
    simp only [List.length_append, List.length_cons]
    omega
  | @surrogates high low text content h l c hexHigh hexLow smallHigh smallLow pair _ ih =>
    have later := ih (out ++ String.utf8EncodeChar c)
    have escape := reads_surrogates hexHigh hexLow smallHigh smallLow pair out (text ++ 34 :: rest)
    rw [List.append_assoc] at later
    have shape : 92 :: 117 :: (high ++ 92 :: 117 :: (low ++ text)) ++ 34 :: rest =
        92 :: 117 :: (high ++ 92 :: 117 :: (low ++ (text ++ 34 :: rest))) := by
      simp
    rw [shape]
    refine .next (reads_parseStringByte_escape escape) ?_ later
    simp only [List.length_append, List.length_cons]
    omega

/-- A string of the grammar is read as its content. -/
theorem reads_parseString {text content : Bytes} (white : Json.Blank blank)
    (chars : Json.Chars text content) (rest : Bytes) :
    Reads parseString (blank ++ 34 :: (text ++ 34 :: rest)) content rest := by
  refine (reads_skipWhitespace white rfl).bind ?_
  refine (Reads.nextIs (· = 34) (34 :: (text ++ 34 :: rest))).bind ((Reads.require rfl _).bind ?_)
  refine (Reads.advance [34] (text ++ 34 :: rest)).bind ?_
  exact (rounds_parseString chars [] rest).loop

/-! ### What the writer writes -/

theorem hexDigit_kHex : ∀ d < 16, Json.hexDigit (kHex.getD d 0) = some d := by
  decide

theorem utf8EncodeChar_ofUInt8 {ch : UInt8} (low : ch < 0x80) :
    String.utf8EncodeChar (Char.ofUInt8 ch) = [ch] := by
  have value : (Char.ofUInt8 ch).val.toNat = ch.toNat := UInt8.toNat_toUInt32 ch
  have small : ch.toNat ≤ 0x7F := Nat.le_of_lt_succ (UInt8.lt_iff_toNat_lt.mp low)
  rw [String.utf8EncodeChar, value, if_pos small, UInt8.ofNat_toNat]

/-- A control byte is written as the escape of the character whose encoding it is. -/
theorem chars_control {ch : UInt8} (control : ch < 0x20) {text content : Bytes}
    (chars : Json.Chars text content) :
    Json.Chars (ascii "\\u00" ++ [kHex.getD (ch >>> 4).toNat 0, kHex.getD (ch &&& 0x0F).toNat 0] ++
      text) (ch :: content) := by
  have high : (ch >>> 4).toNat = ch.toNat / 16 := by
    rw [UInt8.toNat_shiftRight]
    exact Nat.shiftRight_eq_div_pow ch.toNat 4
  have low : (ch &&& 0x0F).toNat = ch.toNat % 16 := by
    rw [UInt8.toNat_and]
    exact Nat.and_two_pow_sub_one_eq_mod ch.toNat 4
  have bound : ch.toNat < 256 := UInt8.toNat_lt ch
  have value : 16 * (ch.toNat / 16) + ch.toNat % 16 = (Char.ofUInt8 ch).toNat :=
    (Nat.div_add_mod ch.toNat 16).trans (UInt8.toNat_toUInt32 ch).symm
  have digits : Json.Hex 0 [48, 48, kHex.getD (ch >>> 4).toNat 0, kHex.getD (ch &&& 0x0F).toNat 0]
      (Char.ofUInt8 ch).toNat := by
    rw [high, low, ← value]
    have second := hexDigit_kHex (ch.toNat / 16) (by omega)
    have first := hexDigit_kHex (ch.toNat % 16) (by omega)
    refine .cons (d := 0) rfl (.cons (d := 0) rfl (.cons second (.cons first ?_)))
    rw [Nat.mul_zero, Nat.zero_add]
    exact .nil
  have character := utf8EncodeChar_ofUInt8 (UInt8.lt_trans control (by decide))
  have escape := Json.Chars.unicode ⟨rfl, digits⟩ chars
  rw [character] at escape
  exact escape

/-- What the writer writes is a string of the grammar with the bytes as its content. -/
theorem chars_jsonEscapeByte (ch : UInt8) {text content : Bytes}
    (chars : Json.Chars text content) :
    Json.Chars (jsonEscapeByte ch ++ text) (ch :: content) := by
  unfold jsonEscapeByte
  split
  case _ | _ | _ | _ | _ | _ | _ => exact .short rfl chars
  rename_i notQuote notEscape _ _ _ _ _
  split
  · rename_i control
    exact chars_control control chars
  · rename_i visible
    exact .plain (UInt8.not_lt.mp visible) notQuote notEscape chars

theorem chars_jsonEscapeString (s : Bytes) : Json.Chars (jsonEscapeString s) s := by
  induction s with
  | nil => exact .nil
  | cons ch s ih =>
    rw [jsonEscapeString, List.flatMap_cons]
    exact chars_jsonEscapeByte ch ih

/-- The reader reads back what the writer has escaped, and stops behind the quote. -/
theorem parseString_jsonEscapeString (s r : Bytes) :
    parseString.run ([34] ++ jsonEscapeString s ++ [34] ++ r) =
      .ok s ([34] ++ jsonEscapeString s ++ [34]).length := by
  apply Reads.run
  have reads := reads_parseString Json.blank_nil (chars_jsonEscapeString s) r
  simpa using reads

end JsonReader

end DistributedCache.Bench

import DistributedCache.Lib.Decimal

/-! The syntax of JSON texts in UTF-8: which bytes denote which value.  A byte from 128 on may stand
anywhere in a string, so that a text is not checked to be well-formed UTF-8. -/

namespace Lib

/-- A number is given by its text, and a string by its content in UTF-8. -/
inductive Json
  | null
  | bool (value : Bool)
  | number (text : List UInt8)
  | string (content : List UInt8)
  | array (elements : List Json)
  | object (members : List (List UInt8 × Json))

namespace Json

/-- Space, tab, line feed and carriage return. -/
def isWhitespace (b : UInt8) : Bool := b = 32 || b = 9 || b = 10 || b = 13

def Blank (text : List UInt8) : Prop := ∀ b ∈ text, isWhitespace b = true

/-! ### Strings -/

/-- The byte that a short escape stands for. -/
def shortEscape : UInt8 → Option UInt8
  | 34 => some 34
  | 92 => some 92
  | 47 => some 47
  | 98 => some 8
  | 102 => some 12
  | 110 => some 10
  | 114 => some 13
  | 116 => some 9
  | _ => none

/-- The value of a hexadecimal digit of either case. -/
def hexDigit (b : UInt8) : Option Nat :=
  if 48 ≤ b ∧ b ≤ 57 then some (b.toNat - 48)
  else if 97 ≤ b ∧ b ≤ 102 then some (b.toNat - 87)
  else if 65 ≤ b ∧ b ≤ 70 then some (b.toNat - 55)
  else none

/-- Hexadecimal digits and the number that they denote, after the number of those before them. -/
inductive Hex : Nat → List UInt8 → Nat → Prop
  | nil {n : Nat} : Hex n [] n
  | cons {n d m : Nat} {b : UInt8} {text : List UInt8} : hexDigit b = some d →
      Hex (16 * n + d) text m → Hex n (b :: text) m

/-- The four digits of a `\u` escape. -/
def Hex4 (text : List UInt8) (n : Nat) : Prop := text.length = 4 ∧ Hex 0 text n

/-- The text between the quotes and the content that it denotes.  A `\u` escape is that of a
character, or a pair of surrogates makes one. -/
inductive Chars : List UInt8 → List UInt8 → Prop
  | nil : Chars [] []
  | plain {b : UInt8} {text content : List UInt8} : 32 ≤ b → b ≠ 34 → b ≠ 92 →
      Chars text content → Chars (b :: text) (b :: content)
  | short {e b : UInt8} {text content : List UInt8} : shortEscape e = some b →
      Chars text content → Chars (92 :: e :: text) (b :: content)
  | unicode {digits text content : List UInt8} {c : Char} : Hex4 digits c.toNat →
      Chars text content →
      Chars (92 :: 117 :: (digits ++ text)) (String.utf8EncodeChar c ++ content)
  | surrogates {high low text content : List UInt8} {h l : Nat} {c : Char} :
      Hex4 high (0xD800 + h) → Hex4 low (0xDC00 + l) → h < 1024 → l < 1024 →
      c.toNat = 0x10000 + 1024 * h + l → Chars text content →
      Chars (92 :: 117 :: (high ++ (92 :: 117 :: (low ++ text))))
        (String.utf8EncodeChar c ++ content)

/-! ### Numbers -/

def Digits (text : List UInt8) : Prop := text ≠ [] ∧ ∀ b ∈ text, isDigit b = true

/-- Zero, or digits without a leading zero. -/
def Integer (text : List UInt8) : Prop := text = [48] ∨ (Digits text ∧ text.head? ≠ some 48)

def Fraction (text : List UInt8) : Prop := text = [] ∨ ∃ digits, Digits digits ∧ text = 46 :: digits

def Exponent (text : List UInt8) : Prop :=
  text = [] ∨ ∃ e sign digits, (e = 101 ∨ e = 69) ∧ (sign = [] ∨ sign = [43] ∨ sign = [45]) ∧
    Digits digits ∧ text = e :: (sign ++ digits)

def Number (text : List UInt8) : Prop :=
  ∃ sign integer fraction exponent, (sign = [] ∨ sign = [45]) ∧ Integer integer ∧
    Fraction fraction ∧ Exponent exponent ∧ text = sign ++ (integer ++ (fraction ++ exponent))

/-! ### Values -/

/-- Values with whitespace around them and commas between them. -/
inductive Elements (Value : Json → List UInt8 → Prop) : List Json → List UInt8 → Prop
  | last {v : Json} {before text after : List UInt8} : Blank before → Value v text →
      Blank after → Elements Value [v] (before ++ (text ++ after))
  | next {v : Json} {elements : List Json} {before text after rest : List UInt8} :
      Blank before → Value v text → Blank after → Elements Value elements rest →
      Elements Value (v :: elements) (before ++ (text ++ (after ++ 44 :: rest)))

/-- A key and a colon, with whitespace before and after the key. -/
def Key (key text : List UInt8) : Prop :=
  ∃ before name after, Blank before ∧ Chars name key ∧ Blank after ∧
    text = before ++ (34 :: (name ++ 34 :: (after ++ [58])))

/-- Keys with their values and commas between them. -/
inductive Members (Value : Json → List UInt8 → Prop) :
    List (List UInt8 × Json) → List UInt8 → Prop
  | last {key : List UInt8} {v : Json} {name before text after : List UInt8} : Key key name →
      Blank before → Value v text → Blank after →
      Members Value [(key, v)] (name ++ (before ++ (text ++ after)))
  | next {key : List UInt8} {v : Json} {members : List (List UInt8 × Json)}
      {name before text after rest : List UInt8} : Key key name → Blank before → Value v text →
      Blank after → Members Value members rest →
      Members Value ((key, v) :: members) (name ++ (before ++ (text ++ (after ++ 44 :: rest))))

/-- The texts of a value, without whitespace around it. -/
inductive Value : Json → List UInt8 → Prop
  | null : Value .null [110, 117, 108, 108]
  | yes : Value (.bool true) [116, 114, 117, 101]
  | no : Value (.bool false) [102, 97, 108, 115, 101]
  | number {text : List UInt8} : Number text → Value (.number text) text
  | string {text content : List UInt8} : Chars text content →
      Value (.string content) (34 :: (text ++ [34]))
  | emptyArray {blank : List UInt8} : Blank blank → Value (.array []) (91 :: (blank ++ [93]))
  | array {elements : List Json} {text : List UInt8} : Elements Value elements text →
      Value (.array elements) (91 :: (text ++ [93]))
  | emptyObject {blank : List UInt8} : Blank blank → Value (.object []) (123 :: (blank ++ [125]))
  | object {members : List (List UInt8 × Json)} {text : List UInt8} :
      Members Value members text → Value (.object members) (123 :: (text ++ [125]))

/-- The texts of a document. -/
def Document (v : Json) (text : List UInt8) : Prop :=
  ∃ before middle after, Blank before ∧ Value v middle ∧ Blank after ∧
    text = before ++ (middle ++ after)

/-! ### Facts about the texts -/

theorem blank_nil : Blank [] := fun b member => by cases member

/-- The bytes that numbers consist of. -/
def isNumberByte (b : UInt8) : Bool := isDigit b || b = 46 || b = 101 || b = 69 || b = 45 || b = 43

theorem Digits.bytes {text : List UInt8} (digits : Digits text) :
    ∀ b ∈ text, isNumberByte b = true := by
  intro b member
  simp [isNumberByte, digits.2 b member]

theorem Integer.digits {text : List UInt8} (integer : Integer text) : Digits text := by
  rcases integer with rfl | ⟨digits, -⟩
  · exact ⟨by simp, by simp [isDigit]⟩
  · exact digits

theorem Number.bytes {text : List UInt8} (number : Number text) :
    ∀ b ∈ text, isNumberByte b = true := by
  obtain ⟨sign, integer, fraction, exponent, signed, whole, part, power, rfl⟩ := number
  simp only [List.forall_mem_append]
  refine ⟨?_, whole.digits.bytes, ?_, ?_⟩
  · rcases signed with rfl | rfl <;> simp [isNumberByte]
  · rcases part with rfl | ⟨digits, all, rfl⟩
    · simp
    · exact List.forall_mem_cons.mpr ⟨by decide, all.bytes⟩
  · rcases power with rfl | ⟨e, sign, digits, letter, signed, all, rfl⟩
    · simp
    · refine List.forall_mem_cons.mpr ⟨?_, List.forall_mem_append.mpr ⟨?_, all.bytes⟩⟩
      · rcases letter with rfl | rfl <;> decide
      · rcases signed with rfl | rfl | rfl <;> simp [isNumberByte]

/-- A number starts with a sign or a digit. -/
theorem Number.cons {text : List UInt8} (number : Number text) :
    ∃ b rest, text = b :: rest ∧ (b = 45 ∨ isDigit b = true) := by
  obtain ⟨sign, integer, fraction, exponent, signed, whole, -, -, rfl⟩ := number
  rcases signed with rfl | rfl
  · obtain ⟨nonempty, all⟩ := whole.digits
    cases integer with
    | nil => exact absurd rfl nonempty
    | cons b integer => exact ⟨b, _, rfl, .inr (all b (by simp))⟩
  · exact ⟨45, _, rfl, .inl rfl⟩

/-- A text starts with a byte that is neither blank nor closes a list. -/
def Starts (text : List UInt8) : Prop :=
  ∃ b rest, text = b :: rest ∧ 32 < b ∧ b ≠ 93 ∧ b ≠ 125

theorem Value.starts {v : Json} {text : List UInt8} (value : Value v text) : Starts text := by
  cases value with
  | null | yes | no => exact ⟨_, _, rfl, by decide⟩
  | string | emptyArray | array | emptyObject | object => exact ⟨_, _, rfl, by decide⟩
  | number number =>
    obtain ⟨b, rest, rfl, first⟩ := number.cons
    refine ⟨b, rest, rfl, ?_⟩
    rcases first with rfl | digit
    · decide
    · simp only [isDigit, Bool.and_eq_true, decide_eq_true_eq, UInt8.le_iff_toNat_le] at digit
      simp only [UInt8.lt_iff_toNat_lt, ne_eq, ← UInt8.toNat_inj]
      simp at digit ⊢
      omega

variable {V W : Json → List UInt8 → Prop} {text : List UInt8}

/-- The texts of the elements are no longer than the text of all. -/
theorem Elements.imp {elements : List Json} (all : Elements V elements text)
    (weaker : ∀ v part, V v part → part.length ≤ text.length → W v part) :
    Elements W elements text := by
  induction all with
  | last before value after => exact .last before (weaker _ _ value (by simp; omega)) after
  | next before value after _ ih =>
    refine .next before (weaker _ _ value (by simp; omega)) after (ih fun v part value short => ?_)
    exact weaker v part value (by simp; omega)

theorem Members.imp {members : List (List UInt8 × Json)} (all : Members V members text)
    (weaker : ∀ v part, V v part → part.length ≤ text.length → W v part) :
    Members W members text := by
  induction all with
  | last key before value after =>
    exact .last key before (weaker _ _ value (by simp; omega)) after
  | next key before value after _ ih =>
    refine .next key before (weaker _ _ value (by simp; omega)) after
      (ih fun v part value short => ?_)
    exact weaker v part value (by simp; omega)

/-- The whitespace before the first element. -/
theorem Elements.trim {elements : List Json} (all : Elements V elements text)
    (starts : ∀ v part, V v part → Starts part) :
    ∃ blank rest, text = blank ++ rest ∧ Blank blank ∧ Elements V elements rest ∧
      ∀ after, Starts (rest ++ after) := by
  cases all with
  | last before value after =>
    obtain ⟨b, tail, rfl, first⟩ := starts _ _ value
    refine ⟨_, _, rfl, before, .last blank_nil value after, fun _ => ?_⟩
    exact ⟨b, _, rfl, first⟩
  | next before value after rest =>
    obtain ⟨b, tail, rfl, first⟩ := starts _ _ value
    refine ⟨_, _, rfl, before, .next blank_nil value after rest, fun _ => ?_⟩
    exact ⟨b, _, rfl, first⟩

theorem Key.trim {key : List UInt8} (named : Key key text) :
    ∃ blank rest, text = blank ++ 34 :: rest ∧ Blank blank ∧ Key key (34 :: rest) := by
  obtain ⟨before, name, after, white, chars, white', rfl⟩ := named
  exact ⟨before, _, rfl, white, [], name, after, blank_nil, chars, white', rfl⟩

/-- The whitespace before the first key. -/
theorem Members.trim {members : List (List UInt8 × Json)} (all : Members V members text) :
    ∃ blank rest, text = blank ++ rest ∧ Blank blank ∧ Members V members rest ∧
      ∀ after, Starts (rest ++ after) := by
  cases all with
  | last named before value after =>
    obtain ⟨blank, name, rfl, white, named⟩ := named.trim
    refine ⟨blank, _, List.append_assoc .., white, .last named before value after, fun _ => ?_⟩
    exact ⟨34, _, rfl, by decide⟩
  | next named before value after rest =>
    obtain ⟨blank, name, rfl, white, named⟩ := named.trim
    refine ⟨blank, _, List.append_assoc .., white, .next named before value after rest, fun _ => ?_⟩
    exact ⟨34, _, rfl, by decide⟩

end Json

end Lib

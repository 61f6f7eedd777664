import Mathlib.Algebra.Ring.Int.Defs
import Mathlib.Algebra.Ring.Nat
import Mathlib.Data.List.TakeWhile
import Mathlib.Tactic.IntervalCases

/-! Decimal numerals in byte strings: what `std::from_chars` reads as a signed 64-bit integer, and
what `std::to_string` prints. -/

namespace Lib

/-- The bytes `'0'` to `'9'`. -/
def isDigit (b : UInt8) : Bool := 48 ≤ b && b ≤ 57

/-- The number that a string of digits denotes. -/
def digitsValue (digits : List UInt8) : Nat :=
  digits.foldl (fun n d => 10 * n + (d.toNat - 48)) 0

/-- `std::to_string` of an unsigned number. -/
def toDecimal (n : Nat) : List UInt8 := (Nat.toDigits 10 n).map Char.toUInt8

/-- A numeral within a signed 64-bit integer: digits, possibly after a minus sign. -/
def Numeral (text : List UInt8) (value : Int) : Prop :=
  ∃ digits, digits ≠ [] ∧ (∀ d ∈ digits, isDigit d = true) ∧
    ((text = digits ∧ value = digitsValue digits) ∨
      (text = 45 :: digits ∧ value = -digitsValue digits)) ∧ -2 ^ 63 ≤ value ∧ value < 2 ^ 63

/-- The outcome of `std::from_chars` for `long long`: an error code, or the number; in the last two
cases with the count of bytes before the returned pointer. -/
inductive FromChars
  | invalidArgument
  | resultOutOfRange (length : Nat)
  | ok (value : Int) (length : Nat)
deriving DecidableEq, Repr

def fromChars (text : List UInt8) : FromChars :=
  let negative := text.head? = some 45
  let sign := if negative then 1 else 0
  let digits := (text.drop sign).takeWhile isDigit
  let value : Int := if negative then -digitsValue digits else digitsValue digits
  if digits = [] then .invalidArgument
  else if -2 ^ 63 ≤ value ∧ value < 2 ^ 63 then .ok value (sign + digits.length)
  else .resultOutOfRange (sign + digits.length)

theorem takeWhile_eq_self_of_length {α : Type} {p : α → Bool} {xs : List α}
    (h : (xs.takeWhile p).length = xs.length) : ∀ x ∈ xs, p x = true :=
  List.takeWhile_eq_self_iff.mp ((List.takeWhile_prefix p).eq_of_length h)

/-- `std::from_chars` reads all of `text` as `value` exactly when `text` is a numeral for it. -/
theorem fromChars_eq_ok {text : List UInt8} {value : Int} :
    fromChars text = .ok value text.length ↔ Numeral text value := by
  constructor
  · intro read
    unfold fromChars at read
    by_cases negative : text.head? = some 45
    · obtain ⟨digits, rfl⟩ : ∃ digits, text = 45 :: digits := by
        cases text <;> simp_all
      simp only [List.head?_cons, if_true, List.drop_succ_cons, List.drop_zero] at read
      split_ifs at read with empty range
      simp only [FromChars.ok.injEq, List.length_cons] at read
      have all : ∀ d ∈ digits, isDigit d = true := takeWhile_eq_self_of_length (by omega)
      rw [List.takeWhile_eq_self_iff.mpr all] at read empty range
      exact ⟨digits, empty, all, .inr ⟨rfl, read.1.symm⟩, read.1 ▸ range⟩
    · simp only [negative, if_false, List.drop_zero, Nat.zero_add] at read
      split_ifs at read with empty range
      simp only [FromChars.ok.injEq] at read
      have all := takeWhile_eq_self_of_length read.2
      rw [List.takeWhile_eq_self_iff.mpr all] at read empty range
      exact ⟨text, empty, all, .inl ⟨rfl, read.1.symm⟩, read.1 ▸ range⟩
  · rintro ⟨digits, nonempty, all, ⟨rfl, rfl⟩ | ⟨rfl, rfl⟩, range⟩
    · have unsigned : text.head? ≠ some 45 := by
        intro sign
        have := all 45 (List.mem_of_head? sign)
        simp [isDigit] at this
      simp only [fromChars, unsigned, if_false, List.drop_zero, Nat.zero_add,
        List.takeWhile_eq_self_iff.mpr all, if_neg nonempty, if_pos range]
    · simp only [fromChars, List.head?_cons, if_true, List.drop_succ_cons, List.drop_zero,
        List.takeWhile_eq_self_iff.mpr all, if_neg nonempty, if_pos range, List.length_cons,
        Nat.add_comm 1]

theorem Numeral.unique {text : List UInt8} {v w : Int} (hv : Numeral text v)
    (hw : Numeral text w) : v = w := by
  have := (fromChars_eq_ok.mpr hv).symm.trans (fromChars_eq_ok.mpr hw)
  simpa using this

/-- A numeral contains no control characters. -/
theorem Numeral.not_mem {text : List UInt8} {value : Int} (h : Numeral text value) {b : UInt8}
    (low : b < 45) : b ∉ text := by
  obtain ⟨digits, -, all, form, -⟩ := h
  have digit : b ∉ digits := by
    intro member
    have := all b member
    simp only [isDigit, Bool.and_eq_true, decide_eq_true_eq, UInt8.le_iff_toNat_le,
      UInt8.lt_iff_toNat_lt] at this low
    simp at this low
    omega
  rcases form with ⟨rfl, -⟩ | ⟨rfl, -⟩
  · exact digit
  · simp only [List.mem_cons, not_or]
    refine ⟨?_, digit⟩
    rintro rfl
    simp at low

theorem digit_of_mem_toDigits {n : Nat} {c : Char} (h : c ∈ Nat.toDigits 10 n) :
    48 ≤ c.toNat ∧ c.toNat ≤ 57 ∧ c.toUInt8.toNat = c.toNat := by
  have digit := Nat.isDigit_of_mem_toDigits (by decide) (by decide) h
  have range : 48 ≤ c.toNat ∧ c.toNat ≤ 57 := by
    simpa [Char.isDigit, UInt32.le_iff_toNat_le] using digit
  refine ⟨range.1, range.2, ?_⟩
  show c.toNat % 256 = c.toNat
  omega

theorem isDigit_of_mem_toDecimal {n : Nat} {b : UInt8} (h : b ∈ toDecimal n) : isDigit b := by
  obtain ⟨c, source, rfl⟩ := List.mem_map.mp h
  obtain ⟨low, high, byte⟩ := digit_of_mem_toDigits source
  simp only [isDigit, Bool.and_eq_true, decide_eq_true_eq, UInt8.le_iff_toNat_le, byte]
  exact ⟨low, high⟩

theorem toDecimal_ne_nil (n : Nat) : toDecimal n ≠ [] := by
  intro empty
  simp [toDecimal] at empty

theorem digitsValue_toUInt8 {cs : List Char} (acc : Nat)
    (bytes : ∀ c ∈ cs, c.toUInt8.toNat = c.toNat) :
    (cs.map Char.toUInt8).foldl (fun n d => 10 * n + (d.toNat - 48)) acc =
      Nat.ofDigitChars 10 cs acc := by
  induction cs generalizing acc with
  | nil => rfl
  | cons c cs ih =>
    rw [List.map_cons, List.foldl_cons, bytes c (by simp), Nat.ofDigitChars_cons]
    exact ih _ fun d member => bytes d (by simp [member])

/-- A printed number denotes the number. -/
theorem digitsValue_toDecimal (n : Nat) : digitsValue (toDecimal n) = n := by
  rw [digitsValue, toDecimal,
    digitsValue_toUInt8 0 fun c member => (digit_of_mem_toDigits member).2.2,
    Nat.ofDigitChars_ten_toDigits]

/-- A printed number has no leading zero. -/
theorem head?_toDecimal {n : Nat} (positive : 0 < n) : (toDecimal n).head? ≠ some 48 := by
  induction n using Nat.strongRecOn with
  | ind n ih =>
    rcases Nat.lt_or_ge n 10 with small | large
    · rw [toDecimal, Nat.toDigits_of_lt_base small]
      interval_cases n <;> decide
    · obtain ⟨d, digits, front⟩ := List.exists_cons_of_ne_nil (toDecimal_ne_nil (n / 10))
      have first := ih (n / 10) (by omega) (by omega)
      rw [toDecimal] at front first
      rw [toDecimal, Nat.toDigits_of_base_le (by decide) large, List.map_append, front]
      rwa [front] at first

/-- A printed number is a numeral for it. -/
theorem toDecimal_numeral {n : Nat} (h : n < 2 ^ 63) : Numeral (toDecimal n) n :=
  ⟨toDecimal n, toDecimal_ne_nil n, fun _ => isDigit_of_mem_toDecimal,
    .inl ⟨rfl, by rw [digitsValue_toDecimal]⟩, by omega, by omega⟩

end Lib

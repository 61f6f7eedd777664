import DistributedCache.Lib.Decimal
import Mathlib.Algebra.Order.Field.Basic
import Mathlib.Algebra.Order.Ring.Rat
import Mathlib.Data.List.DropRight
import Mathlib.Data.Nat.Log
import Mathlib.Data.Rat.Lemmas
import Mathlib.Tactic.FieldSimp
import Mathlib.Tactic.Linarith
import Mathlib.Tactic.Ring

/-! Rounding to significant digits, which is what a `double` does to an integer and to a quotient in
base two and `%g` to an integer in base ten, and the text that `%g` prints. -/

namespace Lib

/-- The integer nearest to `n / d`, and of two the even one. -/
def roundDiv (n d : Nat) : Nat :=
  let q := n / d
  let r := n % d
  if d < 2 * r ∨ (2 * r = d ∧ q % 2 = 1) then q + 1 else q

/-- The place value of the last of `places` significant digits of `n`. -/
def lastPlace (base places n : Nat) : Nat := base ^ (Nat.log base n + 1 - places)

/-- `n` rounded to so many significant digits. -/
def roundSig (base places n : Nat) : Nat :=
  roundDiv n (lastPlace base places n) * lastPlace base places n

theorem roundDiv_mul_eq_iff {n d : Nat} (positive : 0 < d) : roundDiv n d * d = n ↔ d ∣ n := by
  have split := Nat.div_add_mod n d
  have small := Nat.mod_lt n positive
  rw [Nat.dvd_iff_mod_eq_zero]
  unfold roundDiv
  dsimp only
  split
  · rename_i up
    rw [Nat.add_mul, one_mul, Nat.mul_comm]
    omega
  · rw [Nat.mul_comm]
    omega

/-- Rounding is off by at most one half. -/
theorem roundDiv_mul_near {d : Nat} (n : Nat) (positive : 0 < d) :
    2 * (roundDiv n d * d) ≤ 2 * n + d ∧ 2 * n ≤ 2 * (roundDiv n d * d) + d := by
  have split := Nat.div_add_mod n d
  have small := Nat.mod_lt n positive
  unfold roundDiv
  dsimp only
  split
  · rw [Nat.add_mul, one_mul, Nat.mul_comm (n / d)]
    omega
  · rw [Nat.mul_comm (n / d)]
    omega

/-- Rounding leaves exactly the multiples of the last place as they are. -/
theorem roundSig_eq_iff {base places n : Nat} (positive : 0 < base) :
    roundSig base places n = n ↔ lastPlace base places n ∣ n :=
  roundDiv_mul_eq_iff (Nat.pow_pos positive)

/-- A number with few digits is not rounded. -/
theorem roundSig_of_lt {base places n : Nat} (proper : 1 < base) (small : n < base ^ places) :
    roundSig base places n = n := by
  rw [roundSig_eq_iff (by omega)]
  by_cases zero : n = 0
  · simp [zero]
  · have digits : Nat.log base n < places := Nat.log_lt_of_lt_pow zero small
    rw [lastPlace, Nat.sub_eq_zero_of_le (by omega), pow_zero]
    exact one_dvd n

/-- The value of a `double` that is to hold a non-negative integer. -/
def toDouble (n : Nat) : Nat := roundSig 2 53 n

theorem toDouble_of_lt {n : Nat} (small : n < 2 ^ 53) : toDouble n = n :=
  roundSig_of_lt (by decide) small

/-- A `double` that is counted up by one stops at `2 ^ 53`. -/
theorem toDouble_count (n : Nat) : toDouble (min n (2 ^ 53) + 1) = min (n + 1) (2 ^ 53) := by
  rcases Nat.lt_trichotomy (n + 1) (2 ^ 53) with below | last | above
  · rw [Nat.min_eq_left (by omega), Nat.min_eq_left (by omega), toDouble_of_lt below]
  · have place : lastPlace 2 53 (2 ^ 53) = 2 := by
      rw [lastPlace, Nat.log_pow (by decide)]
      rfl
    rw [Nat.min_eq_left (by omega), last, Nat.min_self, toDouble, roundSig_eq_iff (by decide),
      place]
    decide
  · have place : lastPlace 2 53 (2 ^ 53 + 1) = 2 := by
      rw [lastPlace, Nat.log_eq_of_pow_le_of_lt_pow (m := 53) (by decide) (by decide)]
      rfl
    rw [Nat.min_eq_right (by omega), Nat.min_eq_right (by omega), toDouble, roundSig, place]
    decide

/-! ### Quotients -/

/-- The quotient `n / d` rounded to so many significant digits: the numerator is scaled up until the
integer quotient has at least these digits. -/
def roundQuotient (base places n d : Nat) : ℚ :=
  let scale := base ^ (places + Nat.log base d + 1)
  let place := lastPlace base places (n * scale / d)
  (roundDiv (n * scale) (d * place) * place : Nat) / scale

theorem zero_roundQuotient (base places d : Nat) : roundQuotient base places 0 d = 0 := by
  simp [roundQuotient, roundDiv]

/-- The last place of a quotient with enough digits is small beside the numerator. -/
theorem mul_lastPlace_le {base places n d : Nat} (proper : 1 < base) (some_places : 0 < places)
    (enough : base ^ places ≤ n / d) :
    d * lastPlace base places (n / d) * base ^ (places - 1) ≤ n := by
  have nonzero : n / d ≠ 0 := by
    have := Nat.pow_pos (n := places) (by omega : 0 < base)
    omega
  have digits : places ≤ Nat.log base (n / d) := Nat.le_log_of_pow_le proper enough
  have top : lastPlace base places (n / d) * base ^ (places - 1) =
      base ^ Nat.log base (n / d) := by
    rw [lastPlace, ← pow_add]
    congr 1
    omega
  calc d * lastPlace base places (n / d) * base ^ (places - 1)
      = d * base ^ Nat.log base (n / d) := by rw [Nat.mul_assoc, top]
    _ ≤ d * (n / d) := Nat.mul_le_mul_left _ (Nat.pow_log_le_self base nonzero)
    _ ≤ n := Nat.mul_div_le n d

/-- The scale is large enough. -/
theorem pow_le_scaled {base n d : Nat} (places : Nat) (proper : 1 < base) (some_n : 0 < n)
    (positive : 0 < d) : base ^ places ≤ n * base ^ (places + Nat.log base d + 1) / d := by
  rw [Nat.le_div_iff_mul_le positive, Nat.add_assoc, pow_add]
  calc base ^ places * d
      ≤ base ^ places * base ^ (Nat.log base d + 1) :=
        Nat.mul_le_mul_left _ (Nat.lt_pow_succ_log_self proper d).le
    _ ≤ n * (base ^ places * base ^ (Nat.log base d + 1)) := Nat.le_mul_of_pos_left _ some_n

/-- The rounded quotient is off by at most half a unit in the last of its places. -/
theorem abs_roundQuotient_mul_sub {base places n d : Nat} (proper : 1 < base)
    (some_places : 0 < places) (positive : 0 < d) :
    |roundQuotient base places n d * d - n| * (2 * base ^ (places - 1)) ≤ n := by
  rcases Nat.eq_zero_or_pos n with rfl | some_n
  · simp [zero_roundQuotient]
  have bound := mul_lastPlace_le proper some_places (pow_le_scaled places proper some_n positive)
  unfold roundQuotient
  dsimp only
  generalize scaled : base ^ (places + Nat.log base d + 1) = scale at bound ⊢
  generalize placed : lastPlace base places (n * scale / d) = place at bound ⊢
  have some_place : 0 < place := placed ▸ Nat.pow_pos (by omega)
  obtain ⟨above, below⟩ := roundDiv_mul_near (n * scale) (Nat.mul_pos positive some_place)
  generalize roundDiv (n * scale) (d * place) = r at above below ⊢
  have some_scale : (0 : ℚ) < scale := Nat.cast_pos.mpr (scaled ▸ Nat.pow_pos (by omega))
  have shift :
      ((r * place : Nat) : ℚ) / scale * d - n = (r * (d * place) - n * scale) / scale := by
    push_cast
    field_simp
  rw [shift, abs_div, abs_of_pos some_scale, div_mul_eq_mul_div, div_le_iff₀ some_scale]
  have near : |(r * (d * place) - n * scale : ℚ)| ≤ d * place / 2 := by
    have aboveQ : (2 * (r * (d * place)) : ℚ) ≤ 2 * (n * scale) + d * place := by
      exact_mod_cast above
    have belowQ : (2 * (n * scale) : ℚ) ≤ 2 * (r * (d * place)) + d * place := by
      exact_mod_cast below
    rw [abs_le]
    constructor <;> linarith
  calc |(r * (d * place) - n * scale : ℚ)| * (2 * base ^ (places - 1))
      = 2 * |(r * (d * place) - n * scale : ℚ)| * base ^ (places - 1) := by ring
    _ ≤ d * place * base ^ (places - 1) :=
      mul_le_mul_of_nonneg_right (by linarith) (by positivity)
    _ ≤ n * scale := by exact_mod_cast bound

/-! ### The text of `%g` -/

/-- The exponent of a number in scientific notation, in two digits or more. -/
def exponentText (exponent : Nat) : List UInt8 :=
  if exponent < 10 then 48 :: toDecimal exponent else toDecimal exponent

/-- What `%g` with precision 6 prints for a non-negative integer.  It prints the six digits of the
rounded number without trailing zeros after the point, and without the point if none remain. -/
def formatG (n : Nat) : List UInt8 :=
  let digits := toDecimal (roundSig 10 6 n)
  let exponent := digits.length - 1
  if exponent < 6 then digits
  else
    let fraction := (digits.drop 1).rdropWhile (· = 48)
    digits.take 1 ++ (if fraction = [] then [] else 46 :: fraction) ++ [101, 43] ++
      exponentText exponent

/-- The number that a decimal text denotes, if it is one: digits, possibly a point and more digits,
and possibly an exponent with its sign. -/
def denote (text : List UInt8) : Option ℚ :=
  let whole := text.takeWhile isDigit
  let afterWhole := text.dropWhile isDigit
  let pointed := afterWhole.head? = some 46
  let fraction := if pointed then (afterWhole.drop 1).takeWhile isDigit else []
  let rest := if pointed then (afterWhole.drop 1).dropWhile isDigit else afterWhole
  let mantissa : ℚ := digitsValue (whole ++ fraction) / 10 ^ fraction.length
  if whole = [] then none
  else
    match rest with
    | [] => some mantissa
    | 101 :: sign :: exponent =>
      if exponent ≠ [] ∧ exponent.all isDigit ∧ sign = 43 then
        some (mantissa * 10 ^ digitsValue exponent)
      else if exponent ≠ [] ∧ exponent.all isDigit ∧ sign = 45 then
        some (mantissa / 10 ^ digitsValue exponent)
      else none
    | _ => none

theorem digitsValue_append (a b : List UInt8) :
    digitsValue (a ++ b) = digitsValue a * 10 ^ b.length + digitsValue b := by
  unfold digitsValue
  rw [List.foldl_append]
  generalize List.foldl _ 0 a = acc
  have shift : ∀ (l : List UInt8) (acc : Nat),
      l.foldl (fun n d => 10 * n + (d.toNat - 48)) acc =
        acc * 10 ^ l.length + l.foldl (fun n d => 10 * n + (d.toNat - 48)) 0 := by
    intro l
    induction l with
    | nil => simp
    | cons d l ih =>
      intro acc
      rw [List.foldl_cons, List.foldl_cons, ih, ih (10 * 0 + (d.toNat - 48)), List.length_cons,
        pow_succ]
      ring
  exact shift b acc

/-- Trailing zeros after the point do not change the number. -/
theorem digitsValue_rdropWhile (front digits : List UInt8) :
    (digitsValue (front ++ digits.rdropWhile (· = 48)) : ℚ) /
        10 ^ (digits.rdropWhile (· = 48)).length =
      digitsValue (front ++ digits) / 10 ^ digits.length := by
  induction digits using List.reverseRecOn with
  | nil => rfl
  | append_singleton digits last ih =>
    rw [List.rdropWhile_concat]
    split
    · rename_i zero
      simp only [decide_eq_true_eq] at zero
      rw [ih, ← List.append_assoc, digitsValue_append (front ++ digits) [last], zero]
      have zero : digitsValue [48] = 0 := rfl
      rw [zero, List.length_append, List.length_singleton, pow_succ]
      push_cast
      field_simp
      ring
    · rfl

theorem denote_digits {digits : List UInt8} (nonempty : digits ≠ [])
    (all : ∀ d ∈ digits, isDigit d = true) : denote digits = some (digitsValue digits : ℚ) := by
  have whole : digits.takeWhile isDigit = digits := List.takeWhile_eq_self_iff.mpr all
  have rest : digits.dropWhile isDigit = [] := List.dropWhile_eq_nil_iff.mpr all
  simp [denote, whole, rest, nonempty]

/-- The number in scientific notation. -/
theorem denote_scientific {first : UInt8} {fraction exponent : List UInt8}
    (digit : isDigit first = true) (all : ∀ d ∈ fraction, isDigit d = true)
    (nonempty : exponent ≠ []) (all' : ∀ d ∈ exponent, isDigit d = true) :
    denote ([first] ++ (if fraction = [] then [] else 46 :: fraction) ++ [101, 43] ++ exponent) =
      some ((digitsValue (first :: fraction) : ℚ) / 10 ^ fraction.length *
        10 ^ digitsValue exponent) := by
  have point : isDigit 46 = false := by decide
  have letter : isDigit 101 = false := by decide
  by_cases short : fraction = []
  · simp [denote, short, digit, letter, nonempty, List.all_eq_true.mpr all']
  · have inside : (fraction ++ 101 :: 43 :: exponent).takeWhile isDigit = fraction := by
      rw [List.takeWhile_append_of_pos all]
      simp [letter]
    have behind :
        (fraction ++ 101 :: 43 :: exponent).dropWhile isDigit = 101 :: 43 :: exponent := by
      rw [List.dropWhile_append_of_pos all]
      simp [letter]
    simp [denote, short, digit, point, inside, behind, nonempty, List.all_eq_true.mpr all']

theorem exponentText_digits (exponent : Nat) :
    exponentText exponent ≠ [] ∧ (∀ d ∈ exponentText exponent, isDigit d = true) ∧
      digitsValue (exponentText exponent) = exponent := by
  unfold exponentText
  split
  · refine ⟨by simp, fun d member => ?_, ?_⟩
    · rcases List.mem_cons.mp member with rfl | later
      · decide
      · exact isDigit_of_mem_toDecimal later
    · exact digitsValue_toDecimal exponent
  · exact ⟨toDecimal_ne_nil _, fun d => isDigit_of_mem_toDecimal, digitsValue_toDecimal exponent⟩

/-- The text of `%g` denotes the number rounded to six digits. -/
theorem denote_formatG (n : Nat) : denote (formatG n) = some (roundSig 10 6 n : ℚ) := by
  have value := digitsValue_toDecimal (roundSig 10 6 n)
  have digit : ∀ d ∈ toDecimal (roundSig 10 6 n), isDigit d = true :=
    fun d => isDigit_of_mem_toDecimal
  unfold formatG
  dsimp only
  cases shape : toDecimal (roundSig 10 6 n) with
  | nil => exact absurd shape (toDecimal_ne_nil _)
  | cons first tail =>
    rw [shape] at value digit
    split
    · rw [denote_digits (by simp) digit, value]
    · obtain ⟨nonempty, all', exponent⟩ := exponentText_digits ((first :: tail).length - 1)
      rw [List.drop_one, List.tail_cons, List.take_succ_cons, List.take_zero,
        denote_scientific (digit first (by simp)) ?_ nonempty all', exponent]
      · have stripped := digitsValue_rdropWhile [first] tail
        rw [List.singleton_append, List.singleton_append, value] at stripped
        rw [stripped, List.length_cons, Nat.add_sub_cancel, div_mul_cancel₀ _ (by simp)]
      · intro d member
        exact digit d (List.mem_cons_of_mem _ ((List.rdropWhile_prefix _ _).subset member))

theorem formatG_bytes {n : Nat} {b : UInt8} (member : b ∈ formatG n) :
    isDigit b = true ∨ b = 46 ∨ b = 101 ∨ b = 43 := by
  have digit : ∀ d ∈ toDecimal (roundSig 10 6 n), isDigit d = true :=
    fun d => isDigit_of_mem_toDecimal
  unfold formatG at member
  dsimp only at member
  split at member
  · exact .inl (digit b member)
  · simp only [List.mem_append, List.mem_cons, List.not_mem_nil, or_false] at member
    rcases member with ((first | fraction) | e | plus) | exponent
    · exact .inl (digit b (List.mem_of_mem_take first))
    · split at fraction
      · cases fraction
      · rcases List.mem_cons.mp fraction with point | later
        · exact .inr (.inl point)
        · exact .inl (digit b (List.mem_of_mem_drop ((List.rdropWhile_prefix _ _).subset later)))
    · exact .inr (.inr (.inl e))
    · exact .inr (.inr (.inr plus))
    · exact .inl ((exponentText_digits _).2.1 b exponent)

example : formatG 1234567 = [49, 46, 50, 51, 52, 53, 55, 101, 43, 48, 54] := by decide

end Lib

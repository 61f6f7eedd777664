import Mathlib.Algebra.Ring.Nat
import Mathlib.Data.List.GetD
import Mathlib.Data.List.Nodup

/-! Shares of a total that has to be handed out in whole units: rounding down, and handing the units
that remain to the largest remainders in turn. -/

namespace Lib

section Turns

variable {α : Type}

/-- The list after so many turns.  A turn applies `f` at one index, and the turns go through `order`
again and again. -/
def roundRobin (f : α → α) (order : List Nat) (turns : Nat) (l : List α) : List α :=
  (List.range turns).foldl (fun l turn => l.modify (order.getD (turn % order.length) 0) f) l

variable {f : α → α} {order : List Nat} {turns : Nat} {l : List α}

theorem roundRobin_zero : roundRobin f order 0 l = l := rfl

theorem roundRobin_succ : roundRobin f order (turns + 1) l =
    (roundRobin f order turns l).modify (order.getD (turns % order.length) 0) f := by
  rw [roundRobin, List.range_succ, List.foldl_append]
  rfl

theorem length_roundRobin : (roundRobin f order turns l).length = l.length := by
  induction turns with
  | zero => rfl
  | succ turns ih => rw [roundRobin_succ, List.length_modify, ih]

/-- In the first round each index of `order` has at most one turn. -/
theorem getElem?_roundRobin (distinct : order.Nodup) (round : turns ≤ order.length) (i : Nat) :
    (roundRobin f order turns l)[i]? = if i ∈ order.take turns then l[i]?.map f else l[i]? := by
  induction turns with
  | zero => simp [roundRobin_zero]
  | succ turns ih =>
    have inside : turns < order.length := round
    have this : order.getD (turns % order.length) 0 = order[turns] := by
      rw [Nat.mod_eq_of_lt inside, List.getD_eq_getElem _ _ inside]
    have fresh : order[turns] ∉ order.take turns := by
      rw [List.mem_take_iff_getElem]
      rintro ⟨j, before, same⟩
      have := (distinct.getElem_inj_iff).mp same
      omega
    rw [roundRobin_succ, this, List.getElem?_modify, ih (by omega),
      List.take_succ_eq_append_getElem inside]
    simp only [List.mem_append, List.mem_singleton]
    by_cases turn : i = order[turns]
    · subst turn
      simp [fresh]
    · have other : ¬order[turns] = i := fun same => turn same.symm
      simp [turn, other]

theorem sum_modify_succ {l : List Nat} {i : Nat} (inside : i < l.length) :
    (l.modify i (· + 1)).sum = l.sum + 1 := by
  induction l generalizing i with
  | nil => simp at inside
  | cons n l ih =>
    cases i with
    | zero =>
      rw [List.modify_zero_cons, List.sum_cons, List.sum_cons]
      omega
    | succ i =>
      rw [List.modify_succ_cons, List.sum_cons, List.sum_cons,
        ih (Nat.lt_of_succ_lt_succ inside)]
      omega

/-- Every turn hands out one unit. -/
theorem sum_roundRobin_succ {l : List Nat} (nonempty : order ≠ [])
    (inside : ∀ i ∈ order, i < l.length) (turns : Nat) :
    (roundRobin (· + 1) order turns l).sum = l.sum + turns := by
  induction turns with
  | zero => rfl
  | succ turns ih =>
    have bound : turns % order.length < order.length :=
      Nat.mod_lt _ (List.length_pos_iff.mpr nonempty)
    have member : order.getD (turns % order.length) 0 ∈ order := by
      rw [List.getD_eq_getElem _ _ bound]
      exact List.getElem_mem bound
    rw [roundRobin_succ, sum_modify_succ, ih, Nat.add_assoc]
    rw [length_roundRobin]
    exact inside _ member

end Turns

/-- Equal shares, with one unit more for each of the first. -/
theorem sum_evenShares (base remainder n : Nat) :
    ((List.range n).map fun i => base + if i < remainder then 1 else 0).sum =
      n * base + min n remainder := by
  induction n with
  | zero => simp
  | succ n ih =>
    rw [List.range_succ, List.map_append, List.sum_append, ih, List.map_singleton,
      List.sum_singleton, Nat.add_mul]
    split <;> omega

section Remainders

variable {α : Type}

/-- A list of quotients and the list of their remainders. -/
theorem sum_div_add_sum_mod (n : α → Nat) (d : Nat) (l : List α) :
    d * (l.map fun a => n a / d).sum + (l.map fun a => n a % d).sum = (l.map n).sum := by
  induction l with
  | nil => rfl
  | cons a l ih =>
    have split := Nat.div_add_mod (n a) d
    simp only [List.map_cons, List.sum_cons, Nat.mul_add]
    omega

theorem sum_add_length_le {r : α → Nat} {d : Nat} {l : List α} (small : ∀ a ∈ l, r a < d) :
    (l.map r).sum + l.length ≤ l.length * d := by
  induction l with
  | nil => simp
  | cons a l ih =>
    have first := small a (by simp)
    have rest := ih fun b member => small b (List.mem_cons_of_mem a member)
    rw [List.map_cons, List.sum_cons, List.length_cons, Nat.add_mul]
    omega

variable {order : List α} {k : Nat}

/-- In a list that descends by a key the first `k` have the largest keys. -/
theorem le_of_mem_take_of_mem_drop {β : Type} [LE β] {key : α → β}
    (descending : order.Pairwise fun a b => key b ≤ key a) {a b : α} (first : a ∈ order.take k)
    (last : b ∈ order.drop k) : key b ≤ key a := by
  rw [← List.take_append_drop k order, List.pairwise_append] at descending
  exact descending.2.2 a first b last

theorem mem_take_of_key_lt {β : Type} [Preorder β] {key : α → β}
    (descending : order.Pairwise fun a b => key b ≤ key a) {a b : α} (first : a ∈ order.take k)
    (member : b ∈ order) (larger : key a < key b) : b ∈ order.take k := by
  rw [← List.take_append_drop k order, List.mem_append] at member
  rcases member with early | late
  · exact early
  · exact absurd (le_of_mem_take_of_mem_drop descending first late) (not_le_of_gt larger)

variable {r : α → Nat} {d : Nat}

/-- Remainders that make `k` units together are at least `k`. -/
theorem le_length_of_sum (positive : 0 < d) (small : ∀ a ∈ order, r a < d)
    (units : (order.map r).sum = k * d) : k ≤ order.length := by
  have bound := sum_add_length_le small
  rw [units] at bound
  exact Nat.le_of_mul_le_mul_right (by omega : k * d ≤ order.length * d) positive

/-- The `k` largest of them are positive: none of them is a unit, so they do not make `k` units
without the others. -/
theorem pos_of_mem_take (descending : order.Pairwise fun a b => r b ≤ r a)
    (small : ∀ a ∈ order, r a < d) (units : (order.map r).sum = k * d) {a : α}
    (first : a ∈ order.take k) : 0 < r a := by
  by_contra zero
  have rest : ((order.drop k).map r).sum = 0 := by
    rw [List.sum_eq_zero_iff_forall_eq_nat]
    intro n member
    obtain ⟨b, last, rfl⟩ := List.mem_map.mp member
    have := le_of_mem_take_of_mem_drop descending first last
    omega
  have all : ((order.take k).map r).sum = k * d := by
    rw [← units, ← List.take_append_drop k order, List.map_append, List.sum_append, rest,
      List.take_append_drop, Nat.add_zero]
  have bound := sum_add_length_le fun b (member : b ∈ order.take k) =>
    small b (List.mem_of_mem_take member)
  have filled : 0 < (order.take k).length := List.length_pos_of_mem first
  have few : (order.take k).length * d ≤ k * d :=
    Nat.mul_le_mul_right d (List.length_take_le k order)
  omega

end Remainders

end Lib

import Mathlib.Data.Finset.Card
import Mathlib.Data.Finset.Max

/-! The greatest elements of a finite set by a rank, and what taking away an element of least rank
leaves of them. -/

namespace Lib

variable {α β : Type} [LinearOrder β] (rank : α → β)

/-- The elements of `s` with fewer than `n` elements of `s` above them. -/
def greatest (n : Nat) (s : Finset α) : Finset α :=
  s.filter fun x => (s.filter fun y => rank x < rank y).card < n

variable {rank} {n : Nat} {s : Finset α} {x : α}

theorem mem_greatest :
    x ∈ greatest rank n s ↔ x ∈ s ∧ (s.filter fun y => rank x < rank y).card < n :=
  Finset.mem_filter

/-- In a set of `n` elements no element has `n` elements above it. -/
theorem greatest_eq_self (few : s.card ≤ n) : greatest rank n s = s := by
  refine Finset.filter_true_of_mem fun x member => ?_
  have smaller : (s.filter fun y => rank x < rank y).card < s.card := by
    refine Finset.card_lt_card (Finset.filter_ssubset.mpr ⟨x, member, ?_⟩)
    exact lt_irrefl (rank x)
  omega

variable [DecidableEq α]

/-- All other elements stand above an element of least rank. -/
theorem filter_above_least (distinct : Set.InjOn rank s) (member : x ∈ s)
    (least : ∀ y ∈ s, rank x ≤ rank y) :
    (s.filter fun y => rank x < rank y) = s.erase x := by
  ext y
  rw [Finset.mem_filter, Finset.mem_erase, and_comm]
  refine and_congr_left fun other => ?_
  constructor
  · rintro less rfl
    exact lt_irrefl _ less
  · intro different
    exact lt_of_le_of_ne (least y other) fun same => different (distinct other member same.symm)

/-- An element of least rank is not among the greatest, if there are others enough. -/
theorem notMem_greatest_of_least (distinct : Set.InjOn rank s) (member : x ∈ s)
    (least : ∀ y ∈ s, rank x ≤ rank y) (many : n < s.card) : x ∉ greatest rank n s := by
  intro great
  have above := (mem_greatest.mp great).2
  rw [filter_above_least distinct member least] at above
  have := Finset.card_erase_add_one member
  omega

/-- Taking away an element of least rank leaves the greatest elements the same. -/
theorem greatest_erase_least (distinct : Set.InjOn rank s) (member : x ∈ s)
    (least : ∀ y ∈ s, rank x ≤ rank y) (many : n < s.card) :
    greatest rank n (s.erase x) = greatest rank n s := by
  ext y
  by_cases same : y = x
  · subst same
    have excluded := notMem_greatest_of_least distinct member least many
    exact iff_of_false (by simp [mem_greatest]) excluded
  · rw [mem_greatest, mem_greatest, Finset.mem_erase, and_iff_right same]
    refine and_congr_right fun other => ?_
    rw [Finset.filter_erase, Finset.erase_eq_of_notMem]
    intro above
    exact absurd (least y other) (not_le.mpr (Finset.mem_filter.mp above).2)

omit [DecidableEq α] in
theorem exists_least (nonempty : s ≠ ∅) : ∃ x ∈ s, ∀ y ∈ s, rank x ≤ rank y :=
  s.exists_min_image rank (Finset.nonempty_iff_ne_empty.mpr nonempty)

/-- There are `n` greatest elements, if there are as many. -/
theorem card_greatest (distinct : Set.InjOn rank s) :
    (greatest rank n s).card = min n s.card := by
  induction size : s.card generalizing s with
  | zero =>
    rw [greatest_eq_self (by omega), size]
    omega
  | succ k ih =>
    by_cases few : s.card ≤ n
    · rw [greatest_eq_self few]
      omega
    · have nonempty : s ≠ ∅ := by
        rintro rfl
        simp at size
      obtain ⟨x, member, least⟩ : ∃ x ∈ s, ∀ y ∈ s, rank x ≤ rank y := exists_least nonempty
      have smaller := Finset.card_erase_add_one member
      have rest : Set.InjOn rank (s.erase x : Set α) :=
        distinct.mono (Finset.coe_subset.mpr (Finset.erase_subset x s))
      rw [← greatest_erase_least distinct member least (by omega), ih rest (by omega)]
      omega

end Lib

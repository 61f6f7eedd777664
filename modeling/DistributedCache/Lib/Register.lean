import Mathlib.Order.WithBot

/-! Registers that keep the reading of the highest rank.  What a register holds after some readings
depends on which readings it has seen, not on their order or number. -/

namespace Lib

section

variable {α σ κ : Type} [LinearOrder κ] (key : α → κ) (rank : σ → WithBot κ) (write : α → σ)

/-- The register after reading `a`. -/
def record (s : σ) (a : α) : σ := if key a < rank s then s else write a

variable {key rank write}

/-- The register holds what it held, if all readings rank below that, or the reading of the highest
rank. -/
theorem foldl_record {readings : List α}
    (ranks : ∀ a ∈ readings, rank (write a) = key a) (s : σ) :
    (readings.foldl (record key rank write) s = s ∧ ∀ a ∈ readings, key a < rank s) ∨
      ∃ a ∈ readings, readings.foldl (record key rank write) s = write a ∧ rank s ≤ key a ∧
        ∀ b ∈ readings, key b ≤ key a := by
  induction readings generalizing s with
  | nil => exact .inl ⟨rfl, by simp⟩
  | cons first rest ih =>
    have restRanks : ∀ a ∈ rest, rank (write a) = key a :=
      fun a member => ranks a (List.mem_cons_of_mem _ member)
    rw [List.foldl_cons]
    by_cases below : key first < rank s
    · rw [record, if_pos below]
      rcases ih restRanks s with ⟨kept, all⟩ | ⟨a, member, holds, above, highest⟩
      · exact .inl ⟨kept, List.forall_mem_cons.mpr ⟨below, all⟩⟩
      · refine .inr ⟨a, List.mem_cons_of_mem _ member, holds, above,
          List.forall_mem_cons.mpr ⟨?_, highest⟩⟩
        exact WithBot.coe_le_coe.mp (below.le.trans above)
    · rw [record, if_neg below]
      have reached := not_lt.mp below
      have ranked := ranks first List.mem_cons_self
      rcases ih restRanks (write first) with ⟨kept, all⟩ | ⟨a, member, holds, above, highest⟩
      · rw [ranked] at all
        refine .inr ⟨first, List.mem_cons_self, kept, reached,
          List.forall_mem_cons.mpr ⟨le_rfl, fun b member => ?_⟩⟩
        exact WithBot.coe_le_coe.mp (all b member).le
      · rw [ranked] at above
        refine .inr ⟨a, List.mem_cons_of_mem _ member, holds, reached.trans above,
          List.forall_mem_cons.mpr ⟨?_, highest⟩⟩
        exact WithBot.coe_le_coe.mp above

/-- The register ends with at least the rank that it had and that of each reading. -/
theorem le_rank_foldl_record {readings : List α}
    (ranks : ∀ a ∈ readings, rank (write a) = key a) (s : σ) :
    rank s ≤ rank (readings.foldl (record key rank write) s) ∧
      ∀ a ∈ readings, key a ≤ rank (readings.foldl (record key rank write) s) := by
  rcases foldl_record ranks s with ⟨kept, all⟩ | ⟨a, member, holds, above, highest⟩
  · rw [kept]
    exact ⟨le_rfl, fun a member => (all a member).le⟩
  · rw [holds, ranks a member]
    exact ⟨above, fun b member' => WithBot.coe_le_coe.mpr (highest b member')⟩

/-- Readings with the same members leave the same state, if different readings rank differently and
the register held the same before or some reading outranks what it held. -/
theorem foldl_record_congr {readings readings' : List α}
    (ranks : ∀ a ∈ readings, rank (write a) = key a)
    (distinct : ∀ a ∈ readings, ∀ b ∈ readings, key a = key b → a = b)
    (same : ∀ a, a ∈ readings ↔ a ∈ readings') {s s' : σ}
    (level : s = s' ∨ ∃ a ∈ readings, rank s ≤ key a ∧ rank s' ≤ key a) :
    readings.foldl (record key rank write) s = readings'.foldl (record key rank write) s' := by
  have ranks' : ∀ a ∈ readings', rank (write a) = key a :=
    fun a member => ranks a ((same a).mpr member)
  rcases foldl_record ranks s with ⟨kept, all⟩ | ⟨a, member, holds, above, highest⟩
  · rcases level with rfl | ⟨top, member, outranks, -⟩
    · rcases foldl_record ranks' s with ⟨kept', -⟩ | ⟨a', member', -, above', -⟩
      · rw [kept, kept']
      · exact absurd (all a' ((same a').mpr member')) above'.not_gt
    · exact absurd (all top member) outranks.not_gt
  · rcases foldl_record ranks' s' with ⟨-, all'⟩ | ⟨a', member', holds', -, highest'⟩
    · rcases level with rfl | ⟨top, member', -, outranks'⟩
      · exact absurd (all' a ((same a).mp member)) above.not_gt
      · exact absurd (all' top ((same top).mp member')) outranks'.not_gt
    · have equal : key a = key a' := le_antisymm (highest' a ((same a).mp member))
        (highest a' ((same a').mpr member'))
      rw [holds, holds', distinct a member a' ((same a').mpr member') equal]

end

end Lib

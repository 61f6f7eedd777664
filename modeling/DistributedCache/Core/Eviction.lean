import DistributedCache.Bytes
import Mathlib.Data.Prod.Lex
import Mathlib.Data.List.Lex
import Mathlib.Order.Defs.LinearOrder

/-! The eviction policy: `selectVictim` returns the key of the first candidate with the least
score. -/

namespace DistributedCache.Core

structure EvictionCandidate where
  key : Bytes
  lfuCount : Nat
  lastTouchNs : Nat
  inProtectedSegment : Bool
deriving DecidableEq, Repr

/-- The tuple that `SelectVictim` compares.  Keys compare as `std::string` does, by their bytes as
unsigned numbers. -/
def score (candidate : EvictionCandidate) : ℕ ×ₗ ℕ ×ₗ ℕ ×ₗ List ℕ :=
  toLex (if candidate.inProtectedSegment then 1 else 0, toLex (candidate.lfuCount,
    toLex (candidate.lastTouchNs, candidate.key.map UInt8.toNat)))

/-- The loop of `SelectVictim` with `victim` the best candidate so far. -/
def leastScore (victim : EvictionCandidate) : List EvictionCandidate → EvictionCandidate
  | [] => victim
  | candidate :: rest =>
    leastScore (if score candidate < score victim then candidate else victim) rest

/-- The key to evict, empty if there are no candidates. -/
def selectVictim : List EvictionCandidate → Bytes
  | [] => []
  | front :: rest => (leastScore front (front :: rest)).key

theorem leastScore_mem (victim : EvictionCandidate) (candidates : List EvictionCandidate) :
    leastScore victim candidates = victim ∨ leastScore victim candidates ∈ candidates := by
  induction candidates generalizing victim with
  | nil => exact .inl rfl
  | cons candidate rest ih =>
    rw [leastScore]
    split
    · rcases ih candidate with same | member
      · exact .inr (by simp [same])
      · exact .inr (List.mem_cons_of_mem _ member)
    · rcases ih victim with same | member
      · exact .inl same
      · exact .inr (List.mem_cons_of_mem _ member)

theorem score_leastScore_le (victim : EvictionCandidate) (candidates : List EvictionCandidate) :
    score (leastScore victim candidates) ≤ score victim ∧
      ∀ candidate ∈ candidates, score (leastScore victim candidates) ≤ score candidate := by
  induction candidates generalizing victim with
  | nil => exact ⟨le_rfl, by simp⟩
  | cons candidate rest ih =>
    rw [leastScore, List.forall_mem_cons]
    split
    · rename_i less
      obtain ⟨below, others⟩ := ih candidate
      exact ⟨below.trans less.le, below, others⟩
    · rename_i notLess
      obtain ⟨below, others⟩ := ih victim
      exact ⟨below, below.trans (not_lt.mp notLess), others⟩

/-- The victim has the least score of the candidates. -/
theorem selectVictim_least {candidates : List EvictionCandidate} (h : candidates ≠ []) :
    ∃ victim ∈ candidates, selectVictim candidates = victim.key ∧
      ∀ candidate ∈ candidates, score victim ≤ score candidate := by
  match candidates, h with
  | front :: rest, _ =>
    refine ⟨leastScore front (front :: rest), ?_, rfl, (score_leastScore_le front _).2⟩
    rcases leastScore_mem front (front :: rest) with same | member
    · rw [same]
      exact List.mem_cons_self
    · exact member

/-- The victim is the key of one of the candidates. -/
theorem selectVictim_mem {candidates : List EvictionCandidate} (h : candidates ≠ []) :
    ∃ candidate ∈ candidates, selectVictim candidates = candidate.key := by
  obtain ⟨victim, member, selected, -⟩ := selectVictim_least h
  exact ⟨victim, member, selected⟩

/-- Where every key is non-empty, an empty victim means that there were no candidates. -/
theorem selectVictim_eq_nil {candidates : List EvictionCandidate}
    (keys : ∀ candidate ∈ candidates, candidate.key ≠ []) :
    selectVictim candidates = [] ↔ candidates = [] := by
  constructor
  · intro empty
    by_contra nonempty
    obtain ⟨candidate, member, victim⟩ := selectVictim_mem nonempty
    exact keys candidate member (victim.symm.trans empty)
  · rintro rfl
    rfl

/-- Keys break the ties, so different candidates have different scores. -/
theorem score_injective : Function.Injective score := by
  rintro ⟨key, count, touched, segment⟩ ⟨key', count', touched', segment'⟩ equal
  simp only [score, toLex_inj, Prod.mk.injEq] at equal
  obtain ⟨segments, rfl, rfl, keys⟩ := equal
  have bytes : Function.Injective UInt8.toNat := fun a b => UInt8.toNat_inj.mp
  cases List.map_injective_iff.mpr bytes keys
  cases segment <;> cases segment' <;> simp at segments ⊢

/-- The order of the candidates does not matter. -/
theorem selectVictim_congr {candidates candidates' : List EvictionCandidate}
    (same : ∀ candidate, candidate ∈ candidates ↔ candidate ∈ candidates') :
    selectVictim candidates = selectVictim candidates' := by
  by_cases empty : candidates = []
  · have empty' : candidates' = [] := by
      refine List.eq_nil_iff_forall_not_mem.mpr fun candidate member => ?_
      simpa [empty] using (same candidate).mpr member
    rw [empty, empty']
  · have nonempty' : candidates' ≠ [] := by
      rintro rfl
      exact empty (List.eq_nil_iff_forall_not_mem.mpr fun candidate => by simp [same])
    obtain ⟨victim, member, selected, least⟩ := selectVictim_least empty
    obtain ⟨victim', member', selected', least'⟩ := selectVictim_least nonempty'
    have equal := le_antisymm (least victim' ((same victim').mpr member'))
      (least' victim ((same victim).mp member))
    rw [selected, selected', score_injective equal]

end DistributedCache.Core
